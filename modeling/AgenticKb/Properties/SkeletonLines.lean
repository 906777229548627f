import AgenticKb.Graphify.CodeSkeleton
import AgenticKb.Lib.Intervals

open AgenticKb.Lib
open AgenticKb.Lib.Intervals (Covers Apart Piece pieces piece_at merge merge_from)

namespace AgenticKb

/-! What a code skeleton elides: the bodies of functions, and when nothing else. -/

def FunctionDef.stop (f : FunctionDef) : Nat := f.end_lineno.getD 0

/-- The first line of the body that may be collapsed. -/
def FunctionDef.start (f : FunctionDef) : Nat := (f.body.head?.map collapse_start).getD 0

/-- The lines of a definition in the order in which a parser meets them. -/
structure FunctionDef.Placed (f : FunctionDef) (lines : Nat) (first : Stmt) (first_stop stop : Nat) : Prop where
  body : f.body.head? = some first
  first_reported : first.end_lineno = some first_stop
  reported : f.end_lineno = some stop
  lineno_pos : 1 ≤ f.lineno
  lineno_le : f.lineno ≤ f.signature_end
  signature_le : f.signature_end ≤ first.lineno
  first_le : first.lineno ≤ first_stop
  first_stop_le : first_stop ≤ stop
  stop_le : stop ≤ lines

/-- The positions a parser reports for a source with so many lines: a definition begins a logical line, so no two
begin on one line, and one that begins behind the line of another is behind it or in its body, past the docstring. -/
structure Positions (tree : List FunctionDef) (lines : Nat) : Prop where
  placed : ∀ f ∈ tree, ∃ first first_stop stop, f.Placed lines first first_stop stop
  nodup : (tree.map (·.lineno)).Nodup
  nested : ∀ f ∈ tree, ∀ g ∈ tree, f.lineno < g.lineno → f.stop < g.lineno ∨ (f.start ≤ g.lineno ∧ g.stop ≤ f.stop)

/-- Not inside the body of another definition. -/
def Outermost (tree : List FunctionDef) (f : FunctionDef) : Prop :=
  ∀ g ∈ tree, g.lineno < f.lineno → g.stop < f.lineno

/-- In the part of some function's body that is to be collapsed. -/
def Collapsed (tree : List FunctionDef) (n : Nat) : Prop :=
  ∃ f ∈ tree, ∃ iv, body_interval f = some iv ∧ iv.1 ≤ n ∧ n ≤ iv.2

/-- What stands in a skeleton for a piece of the source. -/
def piece_text (lines : List String) (indent : Nat → Nat) : Piece → String
  | .line n => lines.getD (n - 1) ""
  | .block start stop => elided (indent start) (stop - start + 1)

/-- A skeleton elides only what it says. -/
structure ElidesOnly (source : String) (tree : List FunctionDef) (skeleton : String) : Prop where
  /-- The collapsed intervals are the maximal runs of collapsed lines. -/
  runs : ∀ n, Covers (collapse_intervals tree) n ↔ Collapsed tree n
  maximal : (collapse_intervals tree).Pairwise fun a b => a.2 + 1 < b.1
  /-- The pieces hold the lines of the source once and in order, the blocks among them are the intervals, and the
  skeleton has a line for every piece. -/
  pieces : ∃ (ps : List Piece) (indent : Nat → Nat),
    ps.flatMap Piece.numbers = List.range' 1 (universal_lines source).length ∧
    ps.filterMap Piece.interval = collapse_intervals tree ∧
    (ps.map Piece.count).sum = (universal_lines source).length ∧
    (skeleton = join "\n" (ps.map (piece_text (universal_lines source) indent)) ∨
      (collapse_intervals tree = [] ∧ skeleton = source)) ∧
    ∀ f ∈ tree, Outermost tree f → ∀ n, f.lineno ≤ n → n ≤ f.signature_end → .line n ∈ ps

/-- No body starts on the last line of a signature of several lines, and where something is collapsed, cutting the
source with `splitlines` gives as many lines as the parser counts, with the same text unless they are collapsed. -/
structure SkeletonExact (source : String) (tree : List FunctionDef) : Prop where
  signatures : ∀ f ∈ tree, Outermost tree f → ∀ first, f.body.head? = some first → first.is_docstring = false →
    f.lineno < first.lineno → f.signature_end < first.lineno
  count : (∃ n, Collapsed tree n) → (splitlines source).length = (universal_lines source).length
  text : (∃ n, Collapsed tree n) →
    ∀ n, ¬Collapsed tree (n + 1) → (splitlines source)[n]? = (universal_lines source)[n]?

section Merge

private theorem foldl_absorb (done rest : List (Nat × Nat)) (last : Nat × Nat) :
    rest.foldl absorb (done ++ [last]) = done ++ merge_from last rest := by
  induction rest generalizing done last with
  | nil => rfl
  | cons iv rest ih =>
    rw [List.foldl_cons, absorb, List.getLast?_concat, merge_from]
    dsimp only
    split
    · rw [List.dropLast_concat, ih]
    · rw [ih, List.append_assoc, List.singleton_append]

theorem collapse_intervals_eq (tree : List FunctionDef) :
    collapse_intervals tree = merge (sorted interval_order (tree.filterMap body_interval)) := by
  rw [collapse_intervals]
  cases sorted interval_order (tree.filterMap body_interval) with
  | nil => rfl
  | cons first rest => exact foldl_absorb [] rest first

private theorem body_interval_full {f : FunctionDef} {iv : Nat × Nat} (h : body_interval f = some iv) :
    f.lineno < iv.1 ∧ iv.1 ≤ iv.2 := by
  rw [body_interval] at h
  split at h
  · simp at h
  · simp only [Option.ite_none_right_eq_some, Option.some.injEq] at h
    obtain ⟨⟨hstart, hstop⟩, rfl⟩ := h
    exact ⟨hstart, hstop⟩

private theorem mem_raw {tree : List FunctionDef} {iv : Nat × Nat} :
    iv ∈ sorted interval_order (tree.filterMap body_interval) ↔ ∃ f ∈ tree, body_interval f = some iv := by
  rw [mem_sorted, List.mem_filterMap]

private theorem raw_full {tree : List FunctionDef} :
    ∀ iv ∈ sorted interval_order (tree.filterMap body_interval), iv.1 ≤ iv.2 := by
  intro iv hiv
  obtain ⟨f, -, hf⟩ := mem_raw.1 hiv
  exact (body_interval_full hf).2

private theorem raw_sorted (tree : List FunctionDef) :
    (sorted interval_order (tree.filterMap body_interval)).Pairwise fun a b => a.1 ≤ b.1 := by
  have : Std.Total fun a b => interval_order a b = true := ⟨by
    intro a b
    simp only [interval_order, decide_eq_true_eq]
    omega⟩
  have : IsTrans (Nat × Nat) fun a b => interval_order a b = true := ⟨by
    intro a b c
    simp only [interval_order, decide_eq_true_eq]
    omega⟩
  apply (List.pairwise_insertionSort (fun a b => interval_order a b = true) _).imp
  intro a b hab
  simp only [interval_order, decide_eq_true_eq] at hab
  omega

theorem covers_collapse_intervals (tree : List FunctionDef) (n : Nat) :
    Covers (collapse_intervals tree) n ↔ Collapsed tree n := by
  rw [collapse_intervals_eq, Intervals.covers_merge (raw_sorted tree) raw_full, Covers, Collapsed]
  constructor
  · rintro ⟨iv, hiv, hin⟩
    obtain ⟨f, hf, heq⟩ := mem_raw.1 hiv
    exact ⟨f, hf, iv, heq, hin⟩
  · rintro ⟨f, hf, iv, heq, hin⟩
    exact ⟨iv, mem_raw.2 ⟨f, hf, heq⟩, hin⟩

theorem apart_collapse_intervals (tree : List FunctionDef) : Apart (collapse_intervals tree) := by
  rw [collapse_intervals_eq]
  exact ⟨fun iv hiv => (Intervals.mem_merge (raw_sorted tree) raw_full hiv).1,
    Intervals.merge_pairwise (raw_sorted tree) raw_full⟩

end Merge

section Signatures

variable {tree : List FunctionDef} {lines : Nat} {f : FunctionDef} {first : Stmt} {first_stop stop : Nat}

private theorem or_else_of_pos {n : Nat} (h : 0 < n) (d : Nat) : or_else (some n) d = n := by
  rw [or_else]
  exact if_neg (by omega)

namespace FunctionDef.Placed

variable (h : f.Placed lines first first_stop stop)
include h

theorem stop_eq : f.stop = stop := by
  rw [FunctionDef.stop, h.reported, Option.getD_some]

theorem start_eq : f.start = if first.is_docstring then first_stop + 1 else first.lineno := by
  have hpos : 0 < first_stop := by
    have := h.lineno_pos
    have := h.lineno_le
    have := h.signature_le
    have := h.first_le
    omega
  rw [FunctionDef.start, h.body, Option.map_some, Option.getD_some, collapse_start, h.first_reported, or_else_of_pos hpos]

theorem first_le_start : first.lineno ≤ f.start := by
  rw [h.start_eq]
  have hfirst := h.first_le
  split
  · omega
  · exact le_rfl

theorem body_interval_eq :
    body_interval f = if f.lineno < f.start ∧ f.start ≤ f.stop then some (f.start, f.stop) else none := by
  obtain ⟨rest, hbody⟩ := List.head?_eq_some_iff.1 h.body
  have hstart : f.start = collapse_start first := by
    rw [FunctionDef.start, h.body, Option.map_some, Option.getD_some]
  have hpos : 0 < stop := by
    have := h.lineno_pos
    have := h.lineno_le
    have := h.signature_le
    have := h.first_le
    have := h.first_stop_le
    omega
  rw [body_interval, hbody, h.reported, h.stop_eq]
  dsimp only
  rw [← hstart, or_else_of_pos hpos]

end FunctionDef.Placed

variable (hpos : Positions tree lines)
include hpos

private theorem collapsed_iff (n : Nat) :
    Collapsed tree n ↔ ∃ f ∈ tree, f.lineno < f.start ∧ f.start ≤ n ∧ n ≤ f.stop := by
  constructor
  · rintro ⟨f, hf, iv, hiv, hin⟩
    obtain ⟨first, first_stop, stop, hplaced⟩ := hpos.placed f hf
    rw [hplaced.body_interval_eq, Option.ite_none_right_eq_some] at hiv
    obtain ⟨hguard, heq⟩ := hiv
    obtain rfl := Option.some.inj heq
    exact ⟨f, hf, hguard.1, hin⟩
  · rintro ⟨f, hf, hstart, hfrom, hto⟩
    obtain ⟨first, first_stop, stop, hplaced⟩ := hpos.placed f hf
    refine ⟨f, hf, (f.start, f.stop), ?_, hfrom, hto⟩
    rw [hplaced.body_interval_eq, if_pos ⟨hstart, hfrom.trans hto⟩]

private theorem eq_of_lineno {f g : FunctionDef} (hf : f ∈ tree) (hg : g ∈ tree) (h : f.lineno = g.lineno) : f = g :=
  List.inj_on_of_nodup_map hpos.nodup hf hg h

/-- A collapsed body begins two lines or more behind any interval that ends before it. -/
private theorem lineno_behind {f g : FunctionDef} (hf : f ∈ tree) (hg : g ∈ tree) (hfs : f.lineno < f.start)
    (hff : f.start ≤ f.stop) (hgs : g.lineno < g.start) (hgf : g.start ≤ g.stop) (hlt : f.stop < g.start) :
    f.stop < g.lineno := by
  rcases lt_trichotomy f.lineno g.lineno with hbefore | heq | hafter
  · rcases hpos.nested f hf g hg hbefore with hdisjoint | ⟨-, hinside⟩
    · exact hdisjoint
    · omega
  · obtain rfl := eq_of_lineno hpos hf hg heq
    omega
  · rcases hpos.nested g hg f hf hafter with hdisjoint | ⟨hbody, -⟩
    · omega
    · omega

theorem maximal_intervals : (collapse_intervals tree).Pairwise fun a b => a.2 + 1 < b.1 := by
  have hapart := (apart_collapse_intervals tree).ordered
  apply hapart.imp_of_mem
  intro a b ha hb hab
  have hends : ∀ iv ∈ collapse_intervals tree, (∃ f ∈ tree, f.lineno < f.start ∧ f.start ≤ f.stop ∧ f.start = iv.1) ∧
      ∃ f ∈ tree, f.lineno < f.start ∧ f.start ≤ f.stop ∧ f.stop = iv.2 := by
    intro iv hiv
    rw [collapse_intervals_eq] at hiv
    obtain ⟨-, ⟨c, hc, hstart⟩, d, hd, hstop⟩ := Intervals.mem_merge (raw_sorted tree) raw_full hiv
    have hraw : ∀ c ∈ sorted interval_order (tree.filterMap body_interval),
        ∃ f ∈ tree, f.lineno < f.start ∧ f.start ≤ f.stop ∧ c = (f.start, f.stop) := by
      intro c hc
      obtain ⟨f, hf, heq⟩ := mem_raw.1 hc
      obtain ⟨first, first_stop, stop, hplaced⟩ := hpos.placed f hf
      rw [hplaced.body_interval_eq, Option.ite_none_right_eq_some] at heq
      exact ⟨f, hf, heq.1.1, heq.1.2, (Option.some.inj heq.2).symm⟩
    obtain ⟨f, hf, hfs, hff, rfl⟩ := hraw c hc
    obtain ⟨g, hg, hgs, hgf, rfl⟩ := hraw d hd
    exact ⟨⟨f, hf, hfs, hff, hstart⟩, g, hg, hgs, hgf, hstop⟩
  obtain ⟨-, f, hf, hfs, hff, hstop⟩ := hends a ha
  obtain ⟨⟨g, hg, hgs, hgf, hstart⟩, -⟩ := hends b hb
  have hbehind := lineno_behind hpos hf hg hfs hff hgs hgf (by omega)
  omega

/-- The signatures that are kept: those whose last line holds no collapsed body. -/
theorem signatures_kept_iff :
    (∀ f ∈ tree, Outermost tree f → ∀ n, f.lineno ≤ n → n ≤ f.signature_end → ¬Collapsed tree n) ↔
      ∀ f ∈ tree, Outermost tree f → ∀ first, f.body.head? = some first → first.is_docstring = false →
        f.lineno < first.lineno → f.signature_end < first.lineno := by
  constructor
  · intro hkept f hf houter first hfirst hdocstring hline
    obtain ⟨first', first_stop, stop, hplaced⟩ := hpos.placed f hf
    obtain rfl : first = first' := by
      have hbody := hplaced.body
      rw [hfirst] at hbody
      exact Option.some.inj hbody
    by_contra hshared
    have hstart : f.start = first.lineno := by
      rw [hplaced.start_eq, hdocstring]
      rfl
    have hstop := hplaced.stop_eq
    have hle := hplaced.signature_le
    have hfirst_le := hplaced.first_le
    have hstop_le := hplaced.first_stop_le
    apply hkept f hf houter f.signature_end hplaced.lineno_le le_rfl
    rw [collapsed_iff hpos]
    exact ⟨f, hf, by omega, by omega, by omega⟩
  · intro hsignatures f hf houter n hfrom hto hcollapsed
    rw [collapsed_iff hpos] at hcollapsed
    obtain ⟨g, hg, hgs, hgfrom, hgto⟩ := hcollapsed
    obtain ⟨first, first_stop, stop, hplaced⟩ := hpos.placed f hf
    have hstart := hplaced.start_eq
    have hfirst_start := hplaced.first_le_start
    have hstop := hplaced.stop_eq
    have hle := hplaced.signature_le
    have hfirst_le := hplaced.first_le
    have hstop_le := hplaced.first_stop_le
    rcases lt_trichotomy f.lineno g.lineno with hbefore | heq | hafter
    · -- a definition further down is behind this one or in its body, below the signature
      rcases hpos.nested f hf g hg hbefore with hdisjoint | ⟨hbody, -⟩
      · omega
      · omega
    · obtain rfl := eq_of_lineno hpos hf hg heq
      cases hdocstring : first.is_docstring with
      | true =>
        rw [hdocstring, if_pos rfl] at hstart
        omega
      | false =>
        rw [hdocstring, if_neg Bool.false_ne_true] at hstart
        have hbelow := hsignatures f hf houter first hplaced.body hdocstring (by omega)
        omega
    · have hbehind := houter g hg hafter
      omega

end Signatures

section Text

variable {intervals : List (Nat × Nat)}

/-- The indentation the code gives a placeholder: that of the first line it stands for. -/
def block_indent (lines : List String) (start : Nat) : Nat := indent_of (lines.getD (start - 1) "")

/-- The skeleton has a line for every piece into which the intervals cut the lines of `splitlines`. -/
theorem skeleton_lines_eq (hapart : Apart intervals) (lines : List String) :
    skeleton_lines lines intervals =
      (pieces intervals 1 lines.length).map (piece_text lines (block_indent lines)) := by
  have hstarts : intervals.foldl (fun (d : Dict Nat Nat) iv => d.set iv.1 iv.2) [] = intervals := by
    rw [Dict.foldl_set_eq_map (fun iv : Nat × Nat => iv.1) (fun iv => iv.2) hapart.nodup_starts]
    exact List.map_id' intervals
  have hdropped : ∀ n, (intervals.flatMap fun iv => List.range' iv.1 (iv.2 + 1 - iv.1)).contains n = true ↔
      Covers intervals n := by
    intro n
    rw [List.contains_iff_mem, List.mem_flatMap]
    constructor
    · rintro ⟨iv, hiv, hn⟩
      rw [List.mem_range'_1] at hn
      exact ⟨iv, hiv, by omega⟩
    · rintro ⟨iv, hiv, hn⟩
      refine ⟨iv, hiv, ?_⟩
      rw [List.mem_range'_1]
      omega
  rw [skeleton_lines, pieces, List.map_filterMap]
  dsimp only
  rw [hstarts]
  apply List.filterMap_congr
  intro n _
  rw [piece_at]
  cases hfound : intervals.find? fun iv => iv.1 == n with
  | some iv =>
    have hiv := List.mem_of_find?_eq_some hfound
    obtain rfl : iv.1 = n := by simpa using List.find?_some hfound
    rw [Dict.get?_of_mem hapart.nodup_starts (k := iv.1) (v := iv.2) hiv]
    rfl
  | none =>
    have hnone : Dict.get? intervals n = none := by
      cases hget : Dict.get? intervals n with
      | none => rfl
      | some stop =>
        have hmissing := List.find?_eq_none.1 hfound _ (Dict.mem_of_get? hget)
        simp at hmissing
    rw [hnone]
    dsimp only
    by_cases hcovers : Covers intervals n
    · rw [if_pos ((hdropped n).2 hcovers), if_pos hcovers, Option.map_none]
    · rw [if_neg fun h => hcovers ((hdropped n).1 h), if_neg hcovers, Option.map_some, piece_text]

/-- Behind the last interval every line is kept. -/
private theorem pieces_append (hapart : Apart intervals) {length : Nat} (hstop : ∀ iv ∈ intervals, iv.2 ≤ length)
    (more : Nat) :
    pieces intervals 1 (length + more) = pieces intervals 1 length ++ (List.range' (1 + length) more).map .line := by
  rw [pieces, ← List.range'_append_1, List.filterMap_append, ← pieces]
  congr 1
  rw [← List.filterMap_eq_map']
  apply List.filterMap_congr
  intro n hn
  apply Intervals.piece_at_of_not_covers hapart
  rintro ⟨iv, hiv, hin⟩
  rw [List.mem_range'_1] at hn
  have hbound := hstop iv hiv
  omega

private theorem newline_not_mem_elided (indent n : Nat) : '\n' ∉ (elided indent n).toList := by
  have hindent : '\n' ∉ List.replicate indent ' ' := by
    rw [List.mem_replicate]
    rintro ⟨-, heq⟩
    exact absurd heq (by decide)
  have hdigits : '\n' ∉ (toString n).toList := by
    intro hmem
    have htext : (toString n).toList = Nat.toDigits 10 n := by
      rw [← String.toList_ofList (l := Nat.toDigits 10 n), ← Nat.repr_eq_ofList_toDigits]
      rfl
    rw [htext] at hmem
    exact absurd (Nat.isDigit_of_mem_toDigits (by decide) (by decide) hmem) (by decide)
  have hplural : '\n' ∉ (if n ≠ 1 then " lines" else " line" : String).toList := by
    split
    · decide
    · decide
  simp only [elided, String.toList_append, String.toList_ofList, List.mem_append, not_or]
  exact ⟨⟨⟨⟨hindent, by decide⟩, hdigits⟩, hplural⟩, by decide⟩

private theorem newline_not_mem_piece_text {lines : List String} (hlines : ∀ line ∈ lines, '\n' ∉ line.toList)
    (indent : Nat → Nat) (piece : Piece) : '\n' ∉ (piece_text lines indent piece).toList := by
  cases piece with
  | line n =>
    rw [piece_text, List.getD_eq_getElem?_getD]
    cases hline : lines[n - 1]? with
    | none => simp
    | some line => exact hlines line (List.mem_of_getElem? hline)
  | block start stop => exact newline_not_mem_elided _ _

/-- A text of pieces falls apart at its line feeds. -/
private theorem split_pieces {lines : List String} (hlines : ∀ line ∈ lines, '\n' ∉ line.toList) (indent : Nat → Nat)
    {ps : List Piece} (hne : ps ≠ []) :
    split_on '\n' (join "\n" (ps.map (piece_text lines indent))) = ps.map (piece_text lines indent) := by
  apply @split_on_join '\n'
  · simpa using hne
  · intro part hpart
    obtain ⟨piece, -, rfl⟩ := List.mem_map.1 hpart
    exact newline_not_mem_piece_text hlines indent piece

end Text

section Exact

variable {parse : String → Option (List FunctionDef)} {source skeleton : String} {tree : List FunctionDef}

private theorem no_intervals_iff (tree : List FunctionDef) : collapse_intervals tree = [] ↔ ¬∃ n, Collapsed tree n := by
  constructor
  · rintro hnil ⟨n, hn⟩
    rw [← covers_collapse_intervals, hnil] at hn
    exact Intervals.not_covers_nil hn
  · intro hnone
    rw [List.eq_nil_iff_forall_not_mem]
    intro iv hiv
    apply hnone
    exact ⟨iv.1, (covers_collapse_intervals tree iv.1).1 ⟨iv, hiv, le_rfl, (apart_collapse_intervals tree).full iv hiv⟩⟩

private theorem intervals_within {lines : Nat} (hpos : Positions tree lines) :
    ∀ iv ∈ collapse_intervals tree, 1 ≤ iv.1 ∧ iv.2 ≤ lines := by
  intro iv hiv
  have hfull := (apart_collapse_intervals tree).full iv hiv
  have hends : ∀ n, iv.1 ≤ n → n ≤ iv.2 → 1 ≤ n ∧ n ≤ lines := by
    intro n hfrom hto
    have hcollapsed := (covers_collapse_intervals tree n).1 ⟨iv, hiv, hfrom, hto⟩
    rw [collapsed_iff hpos] at hcollapsed
    obtain ⟨f, hf, hstart, hfn, hnf⟩ := hcollapsed
    obtain ⟨first, first_stop, stop, hplaced⟩ := hpos.placed f hf
    have hstop := hplaced.stop_eq
    have hle := hplaced.stop_le
    omega
  exact ⟨(hends iv.1 le_rfl hfull).1, (hends iv.2 hfull le_rfl).2⟩

/-- What the code puts out for a tree that collapses something. -/
private theorem skeleton_eq (hparse : parse source = some tree) (hsome : collapse_intervals tree ≠ []) :
    skeletonize_python parse source =
      some (join "\n" ((pieces (collapse_intervals tree) 1 (splitlines source).length).map
        (piece_text (splitlines source) (block_indent (splitlines source))))) := by
  rw [skeletonize_python, hparse, Option.map_some]
  dsimp only
  rw [if_neg (by simpa using hsome), skeleton_lines_eq (apart_collapse_intervals tree)]

/-- Two lists of pieces that give one text cut the same number of lines, and agree on the lines that are kept. -/
private theorem lines_agree {intervals : List (Nat × Nat)} {seen split : List String} {indent indent' : Nat → Nat}
    (hapart : Apart intervals) (hsome : intervals ≠ []) (hfrom : ∀ iv ∈ intervals, 1 ≤ iv.1)
    (hstop : ∀ iv ∈ intervals, iv.2 ≤ seen.length) (hlength : seen.length ≤ split.length)
    (hseen : ∀ line ∈ seen, '\n' ∉ line.toList) (hsplit : ∀ line ∈ split, '\n' ∉ line.toList)
    (h : join "\n" ((pieces intervals 1 seen.length).map (piece_text seen indent)) =
      join "\n" ((pieces intervals 1 split.length).map (piece_text split indent'))) :
    split.length = seen.length ∧ ∀ n, ¬Covers intervals (n + 1) → split[n]? = seen[n]? := by
  obtain ⟨more, hmore⟩ := Nat.exists_eq_add_of_le hlength
  have hlonger := pieces_append hapart hstop more
  rw [← hmore] at hlonger
  have hne : pieces intervals 1 seen.length ≠ [] := by
    intro hnil
    have hwithin : ∀ iv ∈ intervals, iv.2 < 1 + seen.length := by
      intro iv hiv
      have hbound := hstop iv hiv
      omega
    have hblocks := (Intervals.pieces_spec hapart hfrom hwithin).2
    rw [hnil] at hblocks
    exact hsome hblocks.symm
  have htexts := congrArg (split_on '\n') h
  rw [split_pieces hseen indent hne, split_pieces hsplit indent' (by rw [hlonger]; exact List.append_ne_nil_of_left_ne_nil hne _)]
    at htexts
  have hcount := congrArg List.length htexts
  rw [List.length_map, List.length_map, hlonger, List.length_append, List.length_map, List.length_range'] at hcount
  have hsame : split.length = seen.length := by omega
  refine ⟨hsame, fun n hn => ?_⟩
  rw [hsame] at htexts
  by_cases hin : n < seen.length
  · have hpiece : Piece.line (n + 1) ∈ pieces intervals 1 seen.length :=
      (Intervals.line_mem_pieces_iff hapart).2 ⟨by omega, hn⟩
    have htext := List.map_inj_left.1 htexts _ hpiece
    rw [piece_text, piece_text, Nat.add_sub_cancel, List.getD_eq_getElem?_getD, List.getD_eq_getElem?_getD,
      List.getElem?_eq_getElem hin, List.getElem?_eq_getElem (hsame ▸ hin)] at htext
    rw [List.getElem?_eq_getElem hin, List.getElem?_eq_getElem (hsame ▸ hin)]
    exact congrArg some htext.symm
  · rw [List.getElem?_eq_none (by omega), List.getElem?_eq_none (by omega)]

/-- Where the skeleton elides only what it says, the two ways to cut the source agree. -/
private theorem ElidesOnly.lines_agree (hparse : parse source = some tree)
    (hpos : Positions tree (universal_lines source).length) (hskeleton : skeletonize_python parse source = some skeleton)
    (h : ElidesOnly source tree skeleton) (hsome : collapse_intervals tree ≠ []) :
    (splitlines source).length = (universal_lines source).length ∧
      ∀ n, ¬Covers (collapse_intervals tree) (n + 1) → (splitlines source)[n]? = (universal_lines source)[n]? := by
  have hapart := apart_collapse_intervals tree
  have hwithin := intervals_within hpos
  obtain ⟨ps, indent, hnumbers, hblocks, -, htext, -⟩ := h.pieces
  obtain rfl := Intervals.pieces_unique hapart hnumbers hblocks
  rw [skeleton_eq hparse hsome, Option.some.injEq] at hskeleton
  rcases htext with htext | ⟨hnil, -⟩
  · apply AgenticKb.lines_agree hapart hsome (fun iv hiv => (hwithin iv hiv).1) (fun iv hiv => (hwithin iv hiv).2)
      (length_universal_lines_le source) (fun _ hline => newline_not_mem_universal_lines hline)
      (fun _ hline => newline_not_mem_splitlines hline)
    rw [← htext, hskeleton]
  · exact absurd hnil hsome

private theorem ElidesOnly.signatures_kept (h : ElidesOnly source tree skeleton) :
    ∀ f ∈ tree, Outermost tree f → ∀ n, f.lineno ≤ n → n ≤ f.signature_end → ¬Collapsed tree n := by
  intro f hf houter n hfrom hto hcollapsed
  obtain ⟨ps, indent, hnumbers, hblocks, -, -, hsignatures⟩ := h.pieces
  have hpiece := hsignatures f hf houter n hfrom hto
  obtain rfl := Intervals.pieces_unique (apart_collapse_intervals tree) hnumbers hblocks
  have hnot := ((Intervals.line_mem_pieces_iff (apart_collapse_intervals tree)).1 hpiece).2
  exact hnot ((covers_collapse_intervals tree n).2 hcollapsed)

/-- The skeleton of a source elides only what it says, exactly under `SkeletonExact`. -/
theorem skeleton_exact_iff (hparse : parse source = some tree) (hpos : Positions tree (universal_lines source).length) :
    (∃ skeleton, skeletonize_python parse source = some skeleton ∧ ElidesOnly source tree skeleton) ↔
      SkeletonExact source tree := by
  have hapart := apart_collapse_intervals tree
  have hwithin := intervals_within hpos
  constructor
  · rintro ⟨skeleton, hskeleton, h⟩
    refine ⟨(signatures_kept_iff hpos).1 h.signatures_kept, ?_, ?_⟩
    · intro hcollapsed
      exact (h.lines_agree hparse hpos hskeleton fun hnil => (no_intervals_iff tree).1 hnil hcollapsed).1
    · intro hcollapsed n hn
      apply (h.lines_agree hparse hpos hskeleton fun hnil => (no_intervals_iff tree).1 hnil hcollapsed).2
      rwa [covers_collapse_intervals]
  · intro h
    obtain ⟨hnumbers, hblocks⟩ := @Intervals.pieces_spec _ 1 (universal_lines source).length hapart
      (fun iv hiv => (hwithin iv hiv).1) fun iv hiv => by
        have hbound := (hwithin iv hiv).2
        omega
    have hcounts : ((pieces (collapse_intervals tree) 1 (universal_lines source).length).map Piece.count).sum =
        (universal_lines source).length := by
      rw [Intervals.sum_count (by rw [hblocks]; exact hapart.full), hnumbers, List.length_range']
    have hsignatures : ∀ f ∈ tree, Outermost tree f → ∀ n, f.lineno ≤ n → n ≤ f.signature_end →
        Piece.line n ∈ pieces (collapse_intervals tree) 1 (universal_lines source).length := by
      intro f hf houter n hfrom hto
      have hkept := (signatures_kept_iff hpos).2 h.signatures f hf houter n hfrom hto
      obtain ⟨first, first_stop, stop, hplaced⟩ := hpos.placed f hf
      have hline := hplaced.lineno_pos
      have hsignature := hplaced.signature_le
      have hfirst := hplaced.first_le
      have hstop := hplaced.first_stop_le
      have hle := hplaced.stop_le
      rw [Intervals.line_mem_pieces_iff hapart, covers_collapse_intervals]
      exact ⟨by omega, hkept⟩
    by_cases hsome : collapse_intervals tree = []
    · refine ⟨source, ?_, covers_collapse_intervals tree, maximal_intervals hpos, _, fun _ => 0, hnumbers, hblocks, hcounts,
        .inr ⟨hsome, rfl⟩, hsignatures⟩
      rw [skeletonize_python, hparse, Option.map_some, hsome]
      rfl
    · have hcollapsed : ∃ n, Collapsed tree n := by
        by_contra hnone
        exact hsome ((no_intervals_iff tree).2 hnone)
      refine ⟨_, skeleton_eq hparse hsome, covers_collapse_intervals tree, maximal_intervals hpos, _,
        block_indent (splitlines source), hnumbers, hblocks, hcounts, .inl ?_, hsignatures⟩
      rw [h.count hcollapsed]
      congr 1
      apply List.map_congr_left
      intro piece hpiece
      cases piece with
      | block start stop => rfl
      | line n =>
        obtain ⟨hrange, hnot⟩ := (Intervals.line_mem_pieces_iff hapart).1 hpiece
        obtain ⟨k, rfl⟩ : ∃ k, n = k + 1 := ⟨n - 1, by omega⟩
        rw [piece_text, piece_text, Nat.add_sub_cancel, List.getD_eq_getElem?_getD, List.getD_eq_getElem?_getD,
          h.text hcollapsed k (by rwa [← covers_collapse_intervals])]

end Exact

/-- Of a text with no separators but line ends only the signatures matter. -/
theorem SkeletonExact.of_line_ends {source : String} {tree : List FunctionDef}
    (hbreaks : ∀ c ∈ source.toList, is_line_break c = true → c = '\n' ∨ c = '\r')
    (hsignatures : ∀ f ∈ tree, Outermost tree f → ∀ first, f.body.head? = some first → first.is_docstring = false →
      f.lineno < first.lineno → f.signature_end < first.lineno) : SkeletonExact source tree := by
  have hsame := splitlines_eq_universal_lines hbreaks
  exact ⟨hsignatures, fun _ => by rw [hsame], fun _ n _ => by rw [hsame]⟩

private def plain_source : String := "def f(a):\n    b = a\n    return b\n"

private def plain_tree : List FunctionDef := [⟨1, some 3, [⟨2, some 2, false⟩, ⟨3, some 3, false⟩], 1⟩]

theorem plain_body_elided : ∃ skeleton, skeletonize_python (fun _ => some plain_tree) plain_source = some skeleton ∧
    ElidesOnly plain_source plain_tree skeleton := by
  apply (skeleton_exact_iff rfl _).2
  · apply SkeletonExact.of_line_ends
    · have hbreaks : plain_source.toList.all (fun c => !is_line_break c || c == '\n' || c == '\r') = true := by
        decide +kernel
      intro c hc hbreak
      simpa [hbreak] using List.all_eq_true.1 hbreaks c hc
    · intro f hf _ first hfirst _ hline
      obtain rfl := List.mem_singleton.1 hf
      obtain rfl := Option.some.inj hfirst
      decide
  · have hlines : (universal_lines plain_source).length = 3 := by decide +kernel
    rw [hlines]
    refine ⟨?_, by decide, by decide⟩
    intro f hf
    obtain rfl := List.mem_singleton.1 hf
    exact ⟨⟨2, some 2, false⟩, 2, 3, rfl, rfl, rfl, by decide, by decide, by decide, by decide, by decide, by decide⟩

/-- The body stands on the last line of the signature. -/
private def shared_source : String := "def f(\n    a): return a\n"

private def shared_tree : List FunctionDef := [⟨1, some 2, [⟨2, some 2, false⟩], 2⟩]

/-- A form feed stands in a text above the function. -/
private def feed_source : String := "x = '\x0c'\ndef f():\n    return 1\n"

private def feed_tree : List FunctionDef := [⟨2, some 3, [⟨3, some 3, false⟩], 2⟩]

/-- Either way the signature goes. -/
theorem signature_elided :
    (skeletonize_python (fun _ => some shared_tree) shared_source = some "def f(\n    ... # 1 line elided" ∧
      ¬∃ skeleton, skeletonize_python (fun _ => some shared_tree) shared_source = some skeleton ∧
        ElidesOnly shared_source shared_tree skeleton) ∧
    skeletonize_python (fun _ => some feed_tree) feed_source = some "x = '\n'\n... # 1 line elided\n    return 1" ∧
      ¬∃ skeleton, skeletonize_python (fun _ => some feed_tree) feed_source = some skeleton ∧
        ElidesOnly feed_source feed_tree skeleton := by
  refine ⟨⟨by decide +kernel, ?_⟩, by decide +kernel, ?_⟩
  · rintro ⟨skeleton, -, h⟩
    apply h.signatures_kept ⟨1, some 2, [⟨2, some 2, false⟩], 2⟩ List.mem_cons_self _ 2 (by decide) (by decide)
    · exact ⟨_, List.mem_cons_self, (2, 2), rfl, by decide, by decide⟩
    · intro g hg hline
      obtain rfl := List.mem_singleton.1 hg
      exact absurd hline (by decide)
  · rintro ⟨skeleton, hskeleton, h⟩
    have hseen : (universal_lines feed_source).length = 3 := by decide +kernel
    have hsplit : (splitlines feed_source).length = 4 := by decide +kernel
    have hpos : Positions feed_tree (universal_lines feed_source).length := by
      rw [hseen]
      refine ⟨?_, by decide, by decide⟩
      intro f hf
      obtain rfl := List.mem_singleton.1 hf
      exact ⟨⟨3, some 3, false⟩, 3, 3, rfl, rfl, rfl, by decide, by decide, by decide, by decide, by decide, by decide⟩
    have hcount := (h.lines_agree rfl hpos hskeleton (by decide)).1
    rw [hseen, hsplit] at hcount
    exact absurd hcount (by decide)

section Fallback

variable {u : Unicode} {lines : List String} {n run : Nat} {ps : List Piece}

/-- The pieces of the first `n` lines: a line is one of them if it is kept, and the blocks are the maximal runs of
the others. -/
structure Cut (u : Unicode) (lines : List String) (n : Nat) (ps : List Piece) : Prop where
  numbers : ps.flatMap Piece.numbers = List.range' 1 n
  full : ∀ iv ∈ ps.filterMap Piece.interval, iv.1 ≤ iv.2 ∧ iv.2 ≤ n
  maximal : (ps.filterMap Piece.interval).Pairwise fun a b => a.2 + 1 < b.1
  kept : ∀ m, .line m ∈ ps ↔ 1 ≤ m ∧ m ≤ n ∧ ∃ line, lines[m - 1]? = some line ∧ keeps_line u line = true

/-- The pieces behind which `run` lines are dropped and not yet marked; the line before them is kept. -/
structure LinesScanned (u : Unicode) (lines : List String) (n run : Nat) (ps : List Piece) : Prop where
  cut : Cut u lines n ps
  ended : ∀ iv ∈ ps.filterMap Piece.interval, iv.2 < n
  dropped : ∀ m, n ≤ m → m < n + run → ∃ line, lines[m]? = some line ∧ keeps_line u line = false

def flush_pieces (n run : Nat) (ps : List Piece) : List Piece := if run ≠ 0 then ps ++ [.block (n + 1) (n + run)] else ps

theorem map_flush_pieces (n run : Nat) (ps : List Piece) :
    (flush_pieces n run ps).map (piece_text lines fun _ => 4) = flush (ps.map (piece_text lines fun _ => 4)) run := by
  rw [flush_pieces, flush]
  split
  · have hcount : n + run - (n + 1) + 1 = run := by omega
    rw [List.map_append, List.map_singleton, piece_text, hcount]
  · rfl

theorem LinesScanned.flush (h : LinesScanned u lines n run ps) : Cut u lines (n + run) (flush_pieces n run ps) := by
  rw [flush_pieces]
  by_cases hrun : run = 0
  · rw [if_neg (not_not.2 hrun), hrun]
    exact h.cut
  · rw [if_pos hrun]
    have hblock : [Piece.block (n + 1) (n + run)].filterMap Piece.interval = [(n + 1, n + run)] := rfl
    refine ⟨?_, ?_, ?_, ?_⟩
    · have hcount : n + run + 1 - (n + 1) = run := by omega
      rw [List.flatMap_append, h.cut.numbers, List.flatMap_singleton, Piece.numbers, hcount, Nat.add_comm n 1,
        List.range'_append_1]
    · rw [List.filterMap_append, hblock, List.forall_mem_append]
      refine ⟨fun iv hiv => ?_, ?_⟩
      · obtain ⟨hfull, hle⟩ := h.cut.full iv hiv
        exact ⟨hfull, by omega⟩
      · intro iv hiv
        obtain rfl := List.mem_singleton.1 hiv
        exact ⟨by dsimp only; omega, le_rfl⟩
    · rw [List.filterMap_append, hblock, List.pairwise_append]
      refine ⟨h.cut.maximal, List.pairwise_singleton _ _, ?_⟩
      intro a ha b hb
      obtain rfl := List.mem_singleton.1 hb
      have hended := h.ended a ha
      dsimp only
      omega
    · intro m
      rw [List.mem_append, h.cut.kept]
      constructor
      · rintro (⟨hfrom, hto, hkept⟩ | hblock)
        · exact ⟨hfrom, by omega, hkept⟩
        · simp at hblock
      · rintro ⟨hfrom, hto, line, hline, hkept⟩
        by_cases hn : m ≤ n
        · exact .inl ⟨hfrom, hn, line, hline, hkept⟩
        · obtain ⟨other, hother, hdropped⟩ := h.dropped (m - 1) (by omega) (by omega)
          rw [hline, Option.some.injEq] at hother
          rw [hother, hdropped] at hkept
          exact absurd hkept Bool.false_ne_true

private theorem Cut.snoc (h : Cut u lines n ps) {line : String} (hline : lines[n]? = some line)
    (hkeep : keeps_line u line = true) : LinesScanned u lines (n + 1) 0 (ps ++ [.line (n + 1)]) := by
  have hblocks : (ps ++ [Piece.line (n + 1)]).filterMap Piece.interval = ps.filterMap Piece.interval := by
    rw [List.filterMap_append]
    exact List.append_nil _
  refine ⟨⟨?_, ?_, ?_, ?_⟩, ?_, ?_⟩
  · rw [List.flatMap_append, h.numbers, List.flatMap_singleton, Piece.numbers, List.range'_concat, Nat.one_mul,
      Nat.add_comm 1 n]
  · rw [hblocks]
    intro iv hiv
    obtain ⟨hfull, hle⟩ := h.full iv hiv
    exact ⟨hfull, by omega⟩
  · rw [hblocks]
    exact h.maximal
  · intro m
    rw [List.mem_append, h.kept, List.mem_singleton, Piece.line.injEq]
    constructor
    · rintro (⟨hfrom, hto, hkept⟩ | rfl)
      · exact ⟨hfrom, by omega, hkept⟩
      · exact ⟨by omega, le_rfl, line, hline, hkeep⟩
    · rintro ⟨hfrom, hto, hkept⟩
      by_cases hm : m ≤ n
      · exact .inl ⟨hfrom, hm, hkept⟩
      · exact .inr (by omega)
  · rw [hblocks]
    intro iv hiv
    have hle := (h.full iv hiv).2
    omega
  · intro m hfrom hto
    omega

private theorem scan_lines (before rest : List String) (hlines : lines = before ++ rest) (hlength : before.length = n + run)
    (h : LinesScanned u lines n run ps) :
    ∃ n' run' qs, LinesScanned u lines n' run' qs ∧ lines.length = n' + run' ∧
      rest.foldl (scan_line u) (ps.map (piece_text lines fun _ => 4), run) =
        (qs.map (piece_text lines fun _ => 4), run') := by
  induction rest generalizing before n run ps with
  | nil =>
    rw [List.append_nil] at hlines
    exact ⟨n, run, ps, h, hlines ▸ hlength, rfl⟩
  | cons line rest ih =>
    have hline : lines[n + run]? = some line := by
      rw [hlines, ← hlength, List.getElem?_append_right le_rfl, Nat.sub_self, List.getElem?_cons_zero]
    have hnext : lines = (before ++ [line]) ++ rest := by rw [hlines, List.append_assoc, List.singleton_append]
    rw [List.foldl_cons, scan_line]
    by_cases hkeep : keeps_line u line = true
    · have htext : AgenticKb.flush (ps.map (piece_text lines fun _ => 4)) run ++ [line] =
          (flush_pieces n run ps ++ [Piece.line (n + run + 1)]).map (piece_text lines fun _ => 4) := by
        rw [List.map_append, map_flush_pieces, List.map_singleton, piece_text, Nat.add_sub_cancel,
          List.getD_eq_getElem?_getD, hline, Option.getD_some]
      rw [if_pos hkeep, htext]
      exact ih (before ++ [line]) hnext (by rw [List.length_append, hlength, List.length_singleton, Nat.add_zero])
        (h.flush.snoc hline hkeep)
    · rw [if_neg hkeep]
      apply ih (before ++ [line]) hnext (by rw [List.length_append, hlength, List.length_singleton, Nat.add_assoc])
      refine ⟨h.cut, h.ended, fun m hfrom hto => ?_⟩
      by_cases hm : m < n + run
      · exact h.dropped m hfrom hm
      · obtain rfl : m = n + run := by omega
        exact ⟨line, hline, by simpa using hkeep⟩

/-- The fallback keeps the lines it says, verbatim and in order, and puts one marker with their number in the place of
each maximal run of others. -/
theorem skeletonize_lines_cut (u : Unicode) (source : String) : ∃ ps, Cut u (splitlines source) (splitlines source).length ps ∧
    skeletonize_lines u source = join "\n" (ps.map (piece_text (splitlines source) fun _ => 4)) := by
  have hstart : LinesScanned u (splitlines source) 0 0 [] := by
    refine ⟨⟨rfl, by simp, .nil, fun m => ?_⟩, by simp, fun m _ hm => ?_⟩
    · refine iff_of_false List.not_mem_nil ?_
      omega
    · omega
  obtain ⟨n, run, ps, hscanned, hlength, hfold⟩ := scan_lines [] (splitlines source) rfl rfl hstart
  refine ⟨flush_pieces n run ps, hlength ▸ hscanned.flush, ?_⟩
  rw [skeletonize_lines, map_flush_pieces]
  rw [List.map_nil] at hfold
  rw [hfold]
  rfl

end Fallback

end AgenticKb

import Mathlib.Data.List.Chain
import AgenticKb.Domain.SourceConfig

open AgenticKb.Lib

namespace AgenticKb

/-- What one segment of a glob means within one segment of a path. -/
inductive SegmentMatch : List Char → List Char → Prop where
  | done : SegmentMatch [] []
  | star (run : List Char) {pattern text} : SegmentMatch pattern text → SegmentMatch ('*' :: pattern) (run ++ text)
  | any (c : Char) {pattern text} : SegmentMatch pattern text → SegmentMatch ('?' :: pattern) (c :: text)
  | literal (c : Char) {pattern text} (hstar : c ≠ '*') (hany : c ≠ '?') :
      SegmentMatch pattern text → SegmentMatch (c :: pattern) (c :: text)

/-- What the segments of a glob mean: `**` stands for any number of whole segments, of which none is empty. -/
inductive GlobMatch : List String → List String → Prop where
  | done : GlobMatch [] []
  | globstar {spanned : List String} {patterns segments} (hwhole : ∀ segment ∈ spanned, segment ≠ "") :
      GlobMatch patterns segments → GlobMatch ("**" :: patterns) (spanned ++ segments)
  | segment {pattern segment : String} {patterns segments} (hpattern : pattern ≠ "**")
      (hmatch : SegmentMatch pattern.toList segment.toList) :
      GlobMatch patterns segments → GlobMatch (pattern :: patterns) (segment :: segments)

section Meaning

variable {pattern text : List Char} {patterns others segments : List String} {segment : String}

theorem segmentMatch_nil : SegmentMatch [] text ↔ text = [] := by
  constructor
  · rintro ⟨⟩
    rfl
  · rintro rfl
    exact .done

theorem segmentMatch_star : SegmentMatch ('*' :: pattern) text ↔ ∃ run rest, text = run ++ rest ∧ SegmentMatch pattern rest := by
  constructor
  · intro h
    cases h with
    | star run h => exact ⟨run, _, rfl, h⟩
    | literal c hstar hany h => exact absurd rfl hstar
  · rintro ⟨run, rest, rfl, h⟩
    exact .star run h

theorem segmentMatch_any : SegmentMatch ('?' :: pattern) text ↔ ∃ c rest, text = c :: rest ∧ SegmentMatch pattern rest := by
  constructor
  · intro h
    cases h with
    | any c h => exact ⟨c, _, rfl, h⟩
    | literal c hstar hany h => exact absurd rfl hany
  · rintro ⟨c, rest, rfl, h⟩
    exact .any c h

theorem segmentMatch_literal {c : Char} (hstar : c ≠ '*') (hany : c ≠ '?') :
    SegmentMatch (c :: pattern) text ↔ ∃ rest, text = c :: rest ∧ SegmentMatch pattern rest := by
  constructor
  · intro h
    cases h with
    | star run h => exact absurd rfl hstar
    | any c h => exact absurd rfl hany
    | literal c _ _ h => exact ⟨_, rfl, h⟩
  · rintro ⟨rest, rfl, h⟩
    exact .literal c hstar hany h

theorem globMatch_nil : GlobMatch [] segments ↔ segments = [] := by
  constructor
  · rintro ⟨⟩
    rfl
  · rintro rfl
    exact .done

theorem globMatch_globstar : GlobMatch ("**" :: patterns) segments ↔
    ∃ spanned rest, segments = spanned ++ rest ∧ (∀ segment ∈ spanned, segment ≠ "") ∧ GlobMatch patterns rest := by
  constructor
  · intro h
    cases h with
    | globstar hwhole h => exact ⟨_, _, rfl, hwhole, h⟩
    | segment hpattern _ _ => exact absurd rfl hpattern
  · rintro ⟨spanned, rest, rfl, hwhole, h⟩
    exact .globstar hwhole h

theorem globMatch_segment {name : String} (hname : name ≠ "**") : GlobMatch (name :: patterns) segments ↔
    ∃ segment rest, segments = segment :: rest ∧ SegmentMatch name.toList segment.toList ∧ GlobMatch patterns rest := by
  constructor
  · intro h
    cases h with
    | globstar _ _ => exact absurd rfl hname
    | segment _ hmatch h => exact ⟨_, _, rfl, hmatch, h⟩
  · rintro ⟨segment, rest, rfl, hmatch, h⟩
    exact .segment hname hmatch h

theorem globMatch_last_globstar : GlobMatch ["**"] segments ↔ ∀ segment ∈ segments, segment ≠ "" := by
  rw [globMatch_globstar]
  constructor
  · rintro ⟨spanned, rest, rfl, hwhole, hrest⟩
    rw [globMatch_nil.1 hrest, List.append_nil]
    exact hwhole
  · intro hwhole
    exact ⟨segments, [], (List.append_nil segments).symm, hwhole, .done⟩

theorem globMatch_append : GlobMatch (patterns ++ others) segments ↔
    ∃ before after, segments = before ++ after ∧ GlobMatch patterns before ∧ GlobMatch others after := by
  induction patterns generalizing segments with
  | nil =>
    constructor
    · intro h
      exact ⟨[], segments, rfl, .done, h⟩
    · rintro ⟨before, after, rfl, hbefore, hafter⟩
      rwa [globMatch_nil.1 hbefore]
  | cons pattern patterns ih =>
    rw [List.cons_append]
    by_cases hpattern : pattern = "**"
    · simp only [hpattern, globMatch_globstar, ih]
      constructor
      · rintro ⟨spanned, _, rfl, hwhole, before, after, rfl, hbefore, hafter⟩
        exact ⟨spanned ++ before, after, by rw [List.append_assoc], ⟨spanned, before, rfl, hwhole, hbefore⟩, hafter⟩
      · rintro ⟨_, after, rfl, ⟨spanned, before, rfl, hwhole, hbefore⟩, hafter⟩
        exact ⟨spanned, before ++ after, by rw [List.append_assoc], hwhole, before, after, rfl, hbefore, hafter⟩
    · simp only [globMatch_segment hpattern, ih]
      constructor
      · rintro ⟨segment, _, rfl, hmatch, before, after, rfl, hbefore, hafter⟩
        exact ⟨segment :: before, after, rfl, ⟨segment, before, rfl, hmatch, hbefore⟩, hafter⟩
      · rintro ⟨_, after, rfl, ⟨segment, before, rfl, hmatch, hbefore⟩, hafter⟩
        exact ⟨segment, before ++ after, rfl, hmatch, before, after, rfl, hbefore, hafter⟩

/-- A second `**` spans nothing that the first does not. -/
theorem globMatch_globstar_twice : GlobMatch ("**" :: "**" :: patterns) segments ↔ GlobMatch ("**" :: patterns) segments := by
  simp only [globMatch_globstar]
  constructor
  · rintro ⟨first, _, rfl, hfirst, second, rest, rfl, hsecond, hrest⟩
    refine ⟨first ++ second, rest, (List.append_assoc _ _ _).symm, ?_, hrest⟩
    rw [List.forall_mem_append]
    exact ⟨hfirst, hsecond⟩
  · rintro ⟨spanned, rest, rfl, hwhole, hrest⟩
    exact ⟨[], spanned ++ rest, rfl, by simp, spanned, rest, rfl, hwhole, hrest⟩

end Meaning

section Collapse

variable {collapsed segments : List String}

/-- No `**` follows another. -/
def NoRuns (patterns : List String) : Prop := patterns.IsChain fun first second => ¬(first = "**" ∧ second = "**")

theorem foldl_collapse_match (patterns collapsed : List String) :
    GlobMatch (patterns.foldl collapse_segment collapsed) segments ↔ GlobMatch (collapsed ++ patterns) segments := by
  induction patterns generalizing collapsed with
  | nil => rw [List.foldl_nil, List.append_nil]
  | cons pattern patterns ih =>
    rw [List.foldl_cons, ih, collapse_segment]
    split
    · rename_i hrun
      obtain ⟨before, rfl⟩ := List.getLast?_eq_some_iff.1 hrun.2
      rw [hrun.1, List.append_assoc, List.append_assoc, List.singleton_append, List.singleton_append, globMatch_append,
        globMatch_append]
      simp only [globMatch_globstar_twice]
    · rw [List.append_assoc, List.singleton_append]

/-- Collapsing runs of `**` keeps the meaning of a glob. -/
theorem collapse_globstars_match (patterns : List String) :
    GlobMatch (collapse_globstars patterns) segments ↔ GlobMatch patterns segments := foldl_collapse_match patterns []

theorem collapse_segment_noRuns {segment : String} (h : NoRuns collapsed) : NoRuns (collapse_segment collapsed segment) := by
  unfold collapse_segment
  split
  · exact h
  · rename_i hrun
    rw [NoRuns, List.isChain_append]
    refine ⟨h, .singleton _, ?_⟩
    intro last hlast first hfirst hboth
    rw [List.head?_singleton, Option.mem_some] at hfirst
    exact hrun ⟨hfirst.trans hboth.2, hboth.1 ▸ hlast⟩

theorem foldl_collapse_noRuns (patterns : List String) (h : NoRuns collapsed) :
    NoRuns (patterns.foldl collapse_segment collapsed) := by
  induction patterns generalizing collapsed with
  | nil => exact h
  | cons pattern patterns ih => exact ih (collapse_segment_noRuns h)

theorem foldl_collapse_ne_nil (patterns : List String) (h : collapsed ≠ []) :
    patterns.foldl collapse_segment collapsed ≠ [] := by
  induction patterns generalizing collapsed with
  | nil => exact h
  | cons pattern patterns ih =>
    apply ih
    unfold collapse_segment
    split
    · exact h
    · exact List.concat_ne_nil _ _

theorem mem_foldl_collapse {patterns : List String} {segment : String}
    (h : segment ∈ patterns.foldl collapse_segment collapsed) : segment ∈ collapsed ++ patterns := by
  induction patterns generalizing collapsed with
  | nil => simpa using h
  | cons pattern patterns ih =>
    have hlater := ih h
    unfold collapse_segment at hlater
    split at hlater
    · simp only [List.mem_append, List.mem_cons] at hlater ⊢
      exact hlater.imp_right .inr
    · simpa using hlater

end Collapse

section Languages

variable {text : List Char} {tail : List (Regex Char)} {patterns : List String}

/-- A segment of a path. -/
def NoSlash (segment : String) : Prop := '/' ∉ segment.toList

/-- Segments, each behind a slash. -/
def slashed (segments : List String) : List Char := segments.flatMap fun segment => '/' :: segment.toList

theorem mem_not_slash : text ∈ not_slash.language ↔ ∃ c, c ≠ '/' ∧ text = [c] := by
  simp [not_slash, Regex.other_than, Regex.mem_one]

theorem mem_star_not_slash : text ∈ (Regex.star not_slash).language ↔ '/' ∉ text := by
  rw [not_slash, Regex.other_than, Regex.mem_star_one]
  constructor
  · intro hall hslash
    simpa using hall _ hslash
  · intro hslash c hc
    rw [bne_iff_ne]
    rintro rfl
    exact hslash hc

theorem mem_plus_not_slash :
    text ∈ (Regex.plus not_slash).language ↔ ∃ segment, (segment ≠ "" ∧ NoSlash segment) ∧ text = segment.toList := by
  rw [not_slash, Regex.other_than, Regex.mem_plus_one]
  constructor
  · rintro ⟨hne, hall⟩
    refine ⟨String.ofList text, ⟨by simpa using hne, ?_⟩, String.toList_ofList.symm⟩
    rw [NoSlash, String.toList_ofList]
    intro hslash
    simpa using hall _ hslash
  · rintro ⟨segment, ⟨hne, hslash⟩, rfl⟩
    refine ⟨by simpa using hne, ?_⟩
    intro c hc
    rw [bne_iff_ne]
    rintro rfl
    exact hslash hc

theorem mem_slashed_segments :
    text ∈ slashed_segments.language ↔
      ∃ segments : List String, (∀ segment ∈ segments, segment ≠ "" ∧ NoSlash segment) ∧ text = slashed segments := by
  apply Regex.mem_star_of
  intro text
  rw [Regex.mem_seq]
  simp only [Regex.mem_literal, mem_plus_not_slash]
  constructor
  · rintro ⟨_, rfl, _, ⟨segment, hsegment, rfl⟩, rfl⟩
    exact ⟨segment, hsegment, rfl⟩
  · rintro ⟨segment, hsegment, rfl⟩
    exact ⟨_, rfl, _, ⟨segment, hsegment, rfl⟩, rfl⟩

theorem mem_segments_slashed :
    text ∈ segments_slashed.language ↔
      ∃ segments : List String, (∀ segment ∈ segments, segment ≠ "" ∧ NoSlash segment) ∧
        text = segments.flatMap fun segment => segment.toList ++ ['/'] := by
  apply Regex.mem_star_of
  intro text
  rw [Regex.mem_seq]
  simp only [Regex.mem_literal, mem_plus_not_slash]
  constructor
  · rintro ⟨_, ⟨segment, hsegment, rfl⟩, _, rfl, rfl⟩
    exact ⟨segment, hsegment, rfl⟩
  · rintro ⟨segment, hsegment, rfl⟩
    exact ⟨_, ⟨segment, hsegment, rfl⟩, _, rfl, rfl⟩

/-- The expression of a segment matches what the segment means, and nothing with a slash. -/
theorem mem_segment_language {pattern : List Char} (hpattern : '/' ∉ pattern) :
    text ∈ (Regex.concat (pattern.map char_regex)).language ↔ '/' ∉ text ∧ SegmentMatch pattern text := by
  induction pattern generalizing text with
  | nil =>
    rw [List.map_nil, Regex.mem_concat_nil, segmentMatch_nil]
    constructor
    · rintro rfl
      exact ⟨List.not_mem_nil, rfl⟩
    · exact fun h => h.2
  | cons c pattern ih =>
    rw [List.mem_cons, not_or] at hpattern
    rw [List.map_cons, Regex.mem_concat_cons]
    simp only [ih hpattern.2]
    by_cases hstar : c = '*'
    · rw [hstar, segmentMatch_star, char_regex, if_pos rfl]
      simp only [mem_star_not_slash]
      constructor
      · rintro ⟨run, hrun, rest, ⟨hrest, hmatch⟩, rfl⟩
        exact ⟨by simp [hrun, hrest], run, rest, rfl, hmatch⟩
      · rintro ⟨hslash, run, rest, rfl, hmatch⟩
        rw [List.mem_append, not_or] at hslash
        exact ⟨run, hslash.1, rest, ⟨hslash.2, hmatch⟩, rfl⟩
    · by_cases hany : c = '?'
      · rw [hany, segmentMatch_any, char_regex, if_neg (by decide), if_pos rfl]
        simp only [mem_not_slash]
        constructor
        · rintro ⟨_, ⟨d, hd, rfl⟩, rest, ⟨hrest, hmatch⟩, rfl⟩
          exact ⟨by simp [Ne.symm hd, hrest], d, rest, rfl, hmatch⟩
        · rintro ⟨hslash, d, rest, rfl, hmatch⟩
          rw [List.mem_cons, not_or] at hslash
          exact ⟨[d], ⟨d, Ne.symm hslash.1, rfl⟩, rest, ⟨hslash.2, hmatch⟩, rfl⟩
      · rw [segmentMatch_literal hstar hany, char_regex, if_neg hstar, if_neg hany]
        simp only [Regex.mem_literal]
        constructor
        · rintro ⟨_, rfl, rest, ⟨hrest, hmatch⟩, rfl⟩
          exact ⟨by simp [hpattern.1, hrest], rest, rfl, hmatch⟩
        · rintro ⟨hslash, rest, rfl, hmatch⟩
          rw [List.mem_cons, not_or] at hslash
          exact ⟨[c], rfl, rest, ⟨hslash.2, hmatch⟩, rfl⟩

end Languages

section Parts

variable {tail : List (Regex Char)} {pattern : String} {patterns : List String} {text : List Char}

/-- An expression matches the segments that follow others. -/
def ReadsAfter (tail : List (Regex Char)) (patterns : List String) : Prop :=
  ∀ text, text ∈ (Regex.concat tail).language ↔
    ∃ segments : List String, (∀ segment ∈ segments, NoSlash segment) ∧ GlobMatch patterns segments ∧ text = slashed segments

/-- An expression matches segments from the first one on. -/
def ReadsFirst (tail : List (Regex Char)) (patterns : List String) : Prop :=
  ∀ text, text ∈ (Regex.concat tail).language ↔
    ∃ first segments, (∀ segment ∈ first :: segments, NoSlash segment) ∧ GlobMatch patterns (first :: segments) ∧
      text = first.toList ++ slashed segments

theorem follows_nil : ReadsAfter [] [] := by
  intro text
  rw [Regex.mem_concat_nil]
  constructor
  · rintro rfl
    exact ⟨[], by simp, .done, rfl⟩
  · rintro ⟨segments, -, hmatch, rfl⟩
    rw [globMatch_nil.1 hmatch]
    rfl

theorem follows_last_globstar : ReadsAfter [slashed_segments] ["**"] := by
  intro text
  rw [Regex.mem_concat_cons]
  simp only [Regex.mem_concat_nil, mem_slashed_segments, globMatch_last_globstar]
  constructor
  · rintro ⟨_, ⟨segments, hsegments, rfl⟩, _, rfl, rfl⟩
    exact ⟨segments, fun segment h => (hsegments segment h).2, fun segment h => (hsegments segment h).1, List.append_nil _⟩
  · rintro ⟨segments, hslash, hwhole, rfl⟩
    exact ⟨_, ⟨segments, fun segment h => ⟨hwhole segment h, hslash segment h⟩, rfl⟩, [], rfl, List.append_nil _⟩

theorem starts_last_globstar : ReadsFirst [.seq (.plus not_slash) slashed_segments] ["**"] := by
  intro text
  rw [Regex.mem_concat_cons]
  simp only [Regex.mem_concat_nil, Regex.mem_seq, mem_plus_not_slash, mem_slashed_segments, globMatch_last_globstar]
  constructor
  · rintro ⟨_, ⟨_, ⟨first, hfirst, rfl⟩, _, ⟨segments, hsegments, rfl⟩, rfl⟩, _, rfl, rfl⟩
    have hall : ∀ segment ∈ first :: segments, segment ≠ "" ∧ NoSlash segment :=
      List.forall_mem_cons.2 ⟨hfirst, hsegments⟩
    exact ⟨first, segments, fun segment h => (hall segment h).2, fun segment h => (hall segment h).1, List.append_nil _⟩
  · rintro ⟨first, segments, hslash, hwhole, rfl⟩
    have hall : ∀ segment ∈ first :: segments, segment ≠ "" ∧ NoSlash segment :=
      fun segment h => ⟨hwhole segment h, hslash segment h⟩
    rw [List.forall_mem_cons] at hall
    exact ⟨_, ⟨_, ⟨first, hall.1, rfl⟩, _, ⟨segments, hall.2, rfl⟩, rfl⟩, [], rfl, List.append_nil _⟩

theorem starts_segment {regex : Regex Char} (hpattern : pattern ≠ "**") (hslash : NoSlash pattern)
    (hregex : segment_regex pattern = .ok regex) (h : ReadsAfter tail patterns) : ReadsFirst (regex :: tail) (pattern :: patterns) := by
  intro text
  have hregex : regex = .concat (pattern.toList.map char_regex) := by
    unfold segment_regex at hregex
    split at hregex
    · cases hregex
    · exact (Except.ok.inj hregex).symm
  rw [Regex.mem_concat_cons, hregex]
  simp only [mem_segment_language hslash, h _]
  constructor
  · rintro ⟨name, ⟨hname, hmatch⟩, _, ⟨segments, hsegments, hrest, rfl⟩, rfl⟩
    refine ⟨String.ofList name, segments, ?_, .segment hpattern (by rwa [String.toList_ofList]) hrest, by
      rw [String.toList_ofList]⟩
    rw [List.forall_mem_cons]
    exact ⟨by rwa [NoSlash, String.toList_ofList], hsegments⟩
  · rintro ⟨first, segments, hsegments, hmatch, rfl⟩
    rw [List.forall_mem_cons] at hsegments
    obtain ⟨_, _, heq, hfirst, hrest⟩ := (globMatch_segment hpattern).1 hmatch
    obtain ⟨rfl, rfl⟩ := List.cons.inj heq
    exact ⟨first.toList, ⟨hsegments.1, hfirst⟩, _, ⟨segments, hsegments.2, hrest, rfl⟩, rfl⟩

/-- Segments in front of others, each with its slash. -/
theorem spanned_slashed (spanned : List String) (first : String) (segments : List String) :
    ∃ front rest, spanned ++ first :: segments = front :: rest ∧
      (spanned.flatMap fun segment => segment.toList ++ ['/']) ++ (first.toList ++ slashed segments) =
        front.toList ++ slashed rest := by
  induction spanned with
  | nil => exact ⟨first, segments, rfl, rfl⟩
  | cons segment spanned ih =>
    obtain ⟨front, rest, hsegments, htext⟩ := ih
    refine ⟨segment, front :: rest, by rw [List.cons_append, hsegments], ?_⟩
    rw [List.flatMap_cons, List.append_assoc, htext, slashed, slashed, List.flatMap_cons]
    simp

theorem starts_globstar (hpattern : pattern ≠ "**") (h : ReadsFirst tail (pattern :: patterns)) :
    ReadsFirst (segments_slashed :: tail) ("**" :: pattern :: patterns) := by
  intro text
  rw [Regex.mem_concat_cons]
  simp only [mem_segments_slashed, h _]
  constructor
  · rintro ⟨_, ⟨spanned, hspanned, rfl⟩, _, ⟨first, segments, hsegments, hmatch, rfl⟩, rfl⟩
    obtain ⟨front, rest, heq, htext⟩ := spanned_slashed spanned first segments
    refine ⟨front, rest, ?_, ?_, htext⟩
    · rw [← heq, List.forall_mem_append]
      exact ⟨fun segment h => (hspanned segment h).2, hsegments⟩
    · rw [← heq]
      exact .globstar (fun segment h => (hspanned segment h).1) hmatch
  · rintro ⟨front, rest, hslash, hmatch, rfl⟩
    obtain ⟨spanned, later, heq, hwhole, hlater⟩ := globMatch_globstar.1 hmatch
    obtain ⟨first, segments, rfl, -, -⟩ := (globMatch_segment hpattern).1 hlater
    obtain ⟨front', rest', heq', htext⟩ := spanned_slashed spanned first segments
    obtain ⟨rfl, rfl⟩ := List.cons.inj (heq.trans heq')
    rw [heq, List.forall_mem_append] at hslash
    exact ⟨_, ⟨spanned, fun segment h => ⟨hwhole segment h, hslash.1 segment h⟩, rfl⟩, _,
      ⟨first, segments, hslash.2, hlater, rfl⟩, htext⟩

/-- Behind a slash stands what starts a path, where the glob takes a segment at all. -/
theorem follows_of_starts (hsome : ∀ segments, GlobMatch patterns segments → segments ≠ []) (h : ReadsFirst tail patterns) :
    ReadsAfter (.literal '/' :: tail) patterns := by
  intro text
  rw [Regex.mem_concat_cons]
  simp only [Regex.mem_literal, h _]
  constructor
  · rintro ⟨_, rfl, _, ⟨first, segments, hslash, hmatch, rfl⟩, rfl⟩
    exact ⟨first :: segments, hslash, hmatch, by simp [slashed]⟩
  · rintro ⟨segments, hslash, hmatch, rfl⟩
    obtain ⟨first, segments, rfl⟩ := List.exists_cons_of_ne_nil (hsome _ hmatch)
    exact ⟨_, rfl, _, ⟨first, segments, hslash, hmatch, rfl⟩, by simp [slashed]⟩

/-- The loop appends an expression of the segments it is given: of segments that follow others where a
separator is due, and of the first ones where none is. -/
theorem glob_parts_language {glob : String} {parts result : List (Regex Char)} {need_separator : Bool}
    (hparts : glob_parts glob parts need_separator patterns = .ok result) (hruns : NoRuns patterns)
    (hslash : ∀ pattern ∈ patterns, NoSlash pattern) :
    ∃ tail, result = parts ++ tail ∧
      (need_separator = true → parts ≠ [] → ReadsAfter tail patterns) ∧
      (need_separator = false → patterns ≠ [] → parts = [] ∨ patterns.head? ≠ some "**" → ReadsFirst tail patterns) := by
  induction patterns generalizing parts need_separator with
  | nil =>
    rw [glob_parts] at hparts
    exact ⟨[], by rw [List.append_nil, Except.ok.inj hparts], fun _ _ => follows_nil, fun _ h => absurd rfl h⟩
  | cons pattern patterns ih =>
    rw [List.forall_mem_cons] at hslash
    have hlater : NoRuns patterns := hruns.tail
    rw [glob_parts] at hparts
    dsimp only at hparts
    split at hparts
    · cases hparts
    split at hparts
    · rename_i hglobstar
      subst hglobstar
      split at hparts
      -- the last segment is a globstar
      · rename_i hlast
        obtain rfl := List.isEmpty_iff.1 hlast
        rw [glob_parts] at hparts
        refine ⟨_, (Except.ok.inj hparts).symm, ?_, ?_⟩
        · intro _ hsome
          rw [if_neg (by simpa using hsome)]
          exact follows_last_globstar
        · rintro - - (rfl | hfirst)
          · exact starts_last_globstar
          · exact absurd rfl hfirst
      · rename_i hmore
        obtain ⟨next, patterns, rfl⟩ := List.exists_cons_of_ne_nil (fun h => hmore (List.isEmpty_iff.2 h))
        have hnext : next ≠ "**" := by
          intro heq
          exact (List.isChain_cons_cons.1 hruns).1 ⟨rfl, heq⟩
        obtain ⟨tail, hresult, -, hstarts⟩ := ih hparts hlater hslash.2
        have hspan : ReadsFirst (segments_slashed :: tail) ("**" :: next :: patterns) :=
          starts_globstar hnext (hstarts rfl (List.cons_ne_nil _ _) (.inr (by simpa using hnext)))
        have hsome : ∀ segments, GlobMatch ("**" :: next :: patterns) segments → segments ≠ [] := by
          intro segments hmatch
          obtain ⟨spanned, rest, rfl, -, hrest⟩ := globMatch_globstar.1 hmatch
          obtain ⟨first, others, rfl, -, -⟩ := (globMatch_segment hnext).1 hrest
          simp
        cases need_separator with
        | true =>
          refine ⟨.literal '/' :: segments_slashed :: tail, by simp [hresult], ?_, by simp⟩
          exact fun _ _ => follows_of_starts hsome hspan
        | false => exact ⟨segments_slashed :: tail, by simp [hresult], by simp, fun _ _ _ => hspan⟩
    · rename_i hpattern
      cases hregex : segment_regex pattern with
      | error error =>
        rw [hregex] at hparts
        cases hparts
      | ok regex =>
        rw [hregex] at hparts
        obtain ⟨tail, hresult, hfollows, -⟩ := ih hparts hlater hslash.2
        have hstarts : ReadsFirst (regex :: tail) (pattern :: patterns) :=
          starts_segment hpattern hslash.1 hregex (hfollows rfl (by simp))
        have hsome : ∀ segments, GlobMatch (pattern :: patterns) segments → segments ≠ [] := by
          intro segments hmatch
          obtain ⟨first, others, rfl, -, -⟩ := (globMatch_segment hpattern).1 hmatch
          exact List.cons_ne_nil _ _
        cases need_separator with
        | true =>
          refine ⟨.literal '/' :: regex :: tail, by simp [hresult], ?_, by simp⟩
          exact fun _ _ => follows_of_starts hsome hstarts
        | false => exact ⟨regex :: tail, by simp [hresult], by simp, fun _ _ _ => hstarts⟩

end Parts

section Glob

variable {pattern path segment : String} {regex : Regex Char}

theorem slashed_eq (first : String) (segments : List String) :
    first.toList ++ slashed segments = ['/'].intercalate ((first :: segments).map String.toList) := by
  induction segments generalizing first with
  | nil => simp [slashed]
  | cons segment segments ih =>
    have hlater := ih segment
    rw [List.map_cons] at hlater
    rw [List.map_cons, List.map_cons, List.intercalate_cons_cons, ← hlater]
    simp [slashed]

/-- The texts of an accepted glob's expression are the paths that its segments mean. -/
theorem glob_to_regex_language (hregex : glob_to_regex pattern = .ok regex) : path.toList ∈ regex.language ↔
    GlobMatch (split_on '/' pattern) (split_on '/' path) := by
  unfold glob_to_regex at hregex
  split at hregex
  · cases hregex
  split at hregex
  · cases hregex
  cases hparts : glob_parts pattern [] false (collapse_globstars (split_on '/' pattern)) with
  | error error =>
    rw [hparts] at hregex
    cases hregex
  | ok parts =>
    rw [hparts] at hregex
    obtain rfl := (Except.ok.inj hregex).symm
    have hslash : ∀ segment ∈ collapse_globstars (split_on '/' pattern), NoSlash segment :=
      fun segment h => not_mem_of_mem_split_on (mem_foldl_collapse h)
    have hsplit : ∀ text : String, split_on '/' text ≠ [] := by simp [split_on]
    have hsome : collapse_globstars (split_on '/' pattern) ≠ [] := by
      obtain ⟨first, rest, hfirst⟩ := List.exists_cons_of_ne_nil (hsplit pattern)
      rw [collapse_globstars, hfirst, List.foldl_cons]
      exact foldl_collapse_ne_nil rest (by simp [collapse_segment])
    obtain ⟨tail, rfl, -, hstarts⟩ := glob_parts_language hparts (foldl_collapse_noRuns _ .nil) hslash
    rw [hstarts rfl hsome (.inl rfl)]
    simp only [slashed_eq, collapse_globstars_match]
    constructor
    · rintro ⟨first, segments, hsegments, hmatch, htext⟩
      rwa [(split_on_eq_iff (List.cons_ne_nil _ _) hsegments).2 htext]
    · intro hmatch
      obtain ⟨first, segments, hpath⟩ := List.exists_cons_of_ne_nil (hsplit path)
      rw [hpath] at hmatch
      have hsegments : ∀ segment ∈ first :: segments, NoSlash segment := by
        rw [← hpath]
        exact fun segment h => not_mem_of_mem_split_on h
      exact ⟨first, segments, hsegments, hmatch, (split_on_eq_iff (List.cons_ne_nil _ _) hsegments).1 hpath⟩

/-- A glob means of a path what its segments mean of the path's. -/
theorem glob_to_regex_means (hregex : glob_to_regex pattern = .ok regex) :
    regex.accepts path.toList = true ↔ GlobMatch (split_on '/' pattern) (split_on '/' path) := by
  rw [Regex.accepts_iff, glob_to_regex_language hregex]

theorem any_accepts_iff {globs : List String} {regexes : List (Regex Char)} (h : globs.mapM glob_to_regex = .ok regexes) :
    (regexes.any fun regex => regex.accepts path.toList) = true ↔
      ∃ glob ∈ globs, GlobMatch (split_on '/' glob) (split_on '/' path) := by
  induction globs generalizing regexes with
  | nil =>
    obtain rfl : [] = regexes := Except.ok.inj h
    simp
  | cons glob globs ih =>
    rw [List.mapM_cons] at h
    cases hregex : glob_to_regex glob with
    | error error =>
      rw [hregex] at h
      cases h
    | ok regex =>
      cases hrest : globs.mapM glob_to_regex with
      | error error =>
        rw [hregex, hrest] at h
        cases h
      | ok rest =>
        rw [hregex, hrest] at h
        obtain rfl : regex :: rest = regexes := Except.ok.inj h
        rw [List.any_cons, Bool.or_eq_true, ih hrest, Regex.accepts_iff, glob_to_regex_language hregex,
          List.exists_mem_cons_iff]

/-- A path passes a filter if some include glob means it and no exclude glob does. -/
theorem path_filter_matches_iff {include_globs exclude_globs : List String} {filter : PathFilter}
    (hmake : PathFilter.make include_globs exclude_globs = .ok filter) :
    filter.matches path = true ↔
      (∃ glob ∈ include_globs, GlobMatch (split_on '/' glob) (split_on '/' path)) ∧
        ¬∃ glob ∈ exclude_globs, GlobMatch (split_on '/' glob) (split_on '/' path) := by
  unfold PathFilter.make at hmake
  cases hinclude : include_globs.mapM glob_to_regex with
  | error error =>
    rw [hinclude] at hmake
    cases hmake
  | ok include_regexes =>
    cases hexclude : exclude_globs.mapM glob_to_regex with
    | error error =>
      rw [hinclude, hexclude] at hmake
      cases hmake
    | ok exclude_regexes =>
      rw [hinclude, hexclude] at hmake
      obtain rfl : PathFilter.mk include_regexes exclude_regexes = filter := Except.ok.inj hmake
      rw [← any_accepts_iff hinclude, ← any_accepts_iff hexclude, PathFilter.matches]
      cases include_regexes.any fun regex => regex.accepts path.toList with
      | false => simp
      | true => simp

end Glob

theorem glob_to_regex_means_source : ∃ regex, glob_to_regex "services/**/**/*.p?" = .ok regex ∧
    regex.accepts "services/kb/src/run.py".toList = true ∧
    GlobMatch (split_on '/' "services/**/**/*.p?") (split_on '/' "services/kb/src/run.py") := by
  have haccepts : (glob_to_regex "services/**/**/*.p?").toOption.map
      (fun regex => regex.accepts "services/kb/src/run.py".toList) = some true := by
    decide +kernel
  cases hregex : glob_to_regex "services/**/**/*.p?" with
  | error error =>
    rw [hregex] at haccepts
    cases haccepts
  | ok regex =>
    rw [hregex] at haccepts
    have hpath := Option.some.inj haccepts
    exact ⟨regex, rfl, hpath, (glob_to_regex_means hregex).1 hpath⟩

end AgenticKb

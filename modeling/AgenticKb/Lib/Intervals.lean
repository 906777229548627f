import Mathlib.Algebra.GroupWithZero.Nat
import Mathlib.Data.List.Basic
import Mathlib.Data.List.Sort

namespace AgenticKb.Lib.Intervals

/-! Inclusive intervals of numbers: the union of some as separate intervals, and the pieces into which separate
intervals cut a range. -/

/-- Some interval has the number. -/
def Covers (intervals : List (Nat × Nat)) (n : Nat) : Prop := ∃ iv ∈ intervals, iv.1 ≤ n ∧ n ≤ iv.2

instance (intervals : List (Nat × Nat)) (n : Nat) : Decidable (Covers intervals n) :=
  inferInstanceAs (Decidable (∃ iv ∈ intervals, iv.1 ≤ n ∧ n ≤ iv.2))

/-- Grow an interval by those that start in it. -/
def merge_from (last : Nat × Nat) : List (Nat × Nat) → List (Nat × Nat)
  | [] => [last]
  | iv :: rest =>
    if iv.1 ≤ last.2 then merge_from (last.1, max last.2 iv.2) rest
    else last :: merge_from iv rest

/-- The union of intervals in the order of their starts. -/
def merge : List (Nat × Nat) → List (Nat × Nat)
  | [] => []
  | first :: rest => merge_from first rest

section Merge

variable {last : Nat × Nat} {rest intervals : List (Nat × Nat)}

@[simp] theorem covers_cons {iv : Nat × Nat} {n : Nat} :
    Covers (iv :: intervals) n ↔ (iv.1 ≤ n ∧ n ≤ iv.2) ∨ Covers intervals n := by
  simp [Covers]

@[simp] theorem not_covers_nil {n : Nat} : ¬Covers [] n := by
  simp [Covers]

private theorem covers_merge_from (hsorted : (last :: rest).Pairwise fun a b => a.1 ≤ b.1)
    (hsome : ∀ iv ∈ last :: rest, iv.1 ≤ iv.2) (n : Nat) : Covers (merge_from last rest) n ↔ Covers (last :: rest) n := by
  induction rest generalizing last with
  | nil => rfl
  | cons iv rest ih =>
    obtain ⟨hlast, hrest⟩ := List.pairwise_cons.1 hsorted
    obtain ⟨hiv, hrest'⟩ := List.pairwise_cons.1 hrest
    rw [List.forall_mem_cons, List.forall_mem_cons] at hsome
    have hstart := hlast iv List.mem_cons_self
    rw [merge_from]
    split
    · rename_i hover
      rw [ih, covers_cons, covers_cons, covers_cons]
      · constructor
        · rintro (⟨hfrom, hto⟩ | hcovers)
          · by_cases hin : n ≤ last.2
            · exact .inl ⟨hfrom, hin⟩
            · refine .inr (.inl ⟨?_, ?_⟩)
              · omega
              · dsimp only at hto
                omega
          · exact .inr (.inr hcovers)
        · rintro (⟨hfrom, hto⟩ | ⟨hfrom, hto⟩ | hcovers)
          · exact .inl ⟨hfrom, hto.trans (le_max_left _ _)⟩
          · exact .inl ⟨hstart.trans hfrom, hto.trans (le_max_right _ _)⟩
          · exact .inr hcovers
      · rw [List.pairwise_cons]
        exact ⟨fun other hother => hlast other (List.mem_cons_of_mem _ hother), hrest'⟩
      · rw [List.forall_mem_cons]
        exact ⟨hsome.1.trans (le_max_left _ _), hsome.2.2⟩
    · rw [covers_cons, ih hrest (List.forall_mem_cons.2 hsome.2), ← covers_cons]

private theorem merge_from_spec (hsorted : (last :: rest).Pairwise fun a b => a.1 ≤ b.1)
    (hsome : ∀ iv ∈ last :: rest, iv.1 ≤ iv.2) :
    (merge_from last rest).Pairwise (fun a b => a.2 < b.1) ∧
      ∀ iv ∈ merge_from last rest, iv.1 ≤ iv.2 ∧ last.1 ≤ iv.1 ∧
        (∃ a ∈ last :: rest, a.1 = iv.1) ∧ ∃ b ∈ last :: rest, b.2 = iv.2 := by
  induction rest generalizing last with
  | nil =>
    refine ⟨List.pairwise_singleton _ _, fun iv hiv => ?_⟩
    obtain rfl := List.mem_singleton.1 hiv
    exact ⟨hsome iv hiv, le_rfl, ⟨iv, hiv, rfl⟩, iv, hiv, rfl⟩
  | cons next rest ih =>
    obtain ⟨hlast, hrest⟩ := List.pairwise_cons.1 hsorted
    obtain ⟨hnext, hrest'⟩ := List.pairwise_cons.1 hrest
    have hall := hsome
    rw [List.forall_mem_cons, List.forall_mem_cons] at hsome
    rw [merge_from]
    split
    · have hgrown : ((last.1, max last.2 next.2) :: rest).Pairwise fun a b => a.1 ≤ b.1 :=
        List.pairwise_cons.2 ⟨fun other hother => hlast other (List.mem_cons_of_mem _ hother), hrest'⟩
      obtain ⟨hapart, hends⟩ := ih hgrown
        (List.forall_mem_cons.2 ⟨hsome.1.trans (le_max_left _ _), hsome.2.2⟩)
      refine ⟨hapart, fun iv hiv => ?_⟩
      obtain ⟨hfull, hfrom, ⟨a, ha, ha'⟩, b, hb, hb'⟩ := hends iv hiv
      refine ⟨hfull, hfrom, ?_, ?_⟩
      · rcases List.mem_cons.1 ha with rfl | ha
        · exact ⟨last, List.mem_cons_self, ha'⟩
        · exact ⟨a, List.mem_cons_of_mem _ (List.mem_cons_of_mem _ ha), ha'⟩
      · rcases List.mem_cons.1 hb with rfl | hb
        · by_cases hmax : last.2 ≤ next.2
          · exact ⟨next, List.mem_cons_of_mem _ List.mem_cons_self, by rw [← hb', max_eq_right hmax]⟩
          · exact ⟨last, List.mem_cons_self, by rw [← hb', max_eq_left (by omega)]⟩
        · exact ⟨b, List.mem_cons_of_mem _ (List.mem_cons_of_mem _ hb), hb'⟩
    · rename_i hover
      obtain ⟨hapart, hends⟩ := ih hrest (List.forall_mem_cons.2 hsome.2)
      have hfirst := hlast next List.mem_cons_self
      refine ⟨List.pairwise_cons.2 ⟨fun iv hiv => ?_, hapart⟩, ?_⟩
      · have hfrom := (hends iv hiv).2.1
        omega
      · rw [List.forall_mem_cons]
        refine ⟨⟨hsome.1, le_rfl, ⟨last, List.mem_cons_self, rfl⟩, last, List.mem_cons_self, rfl⟩, fun iv hiv => ?_⟩
        obtain ⟨hfull, hfrom, ⟨a, ha, ha'⟩, b, hb, hb'⟩ := hends iv hiv
        exact ⟨hfull, hfirst.trans hfrom, ⟨a, List.mem_cons_of_mem _ ha, ha'⟩, b, List.mem_cons_of_mem _ hb, hb'⟩

variable (hsorted : intervals.Pairwise fun a b => a.1 ≤ b.1) (hsome : ∀ iv ∈ intervals, iv.1 ≤ iv.2)
include hsorted hsome

theorem covers_merge (n : Nat) : Covers (merge intervals) n ↔ Covers intervals n := by
  cases intervals with
  | nil => rfl
  | cons first rest => exact covers_merge_from hsorted hsome n

theorem merge_pairwise : (merge intervals).Pairwise fun a b => a.2 < b.1 := by
  cases intervals with
  | nil => exact .nil
  | cons first rest => exact (merge_from_spec hsorted hsome).1

/-- Each interval of the union starts with one of the given intervals and ends with one. -/
theorem mem_merge {iv : Nat × Nat} (h : iv ∈ merge intervals) :
    iv.1 ≤ iv.2 ∧ (∃ a ∈ intervals, a.1 = iv.1) ∧ ∃ b ∈ intervals, b.2 = iv.2 := by
  cases intervals with
  | nil => simp [merge] at h
  | cons first rest =>
    obtain ⟨hfull, -, hstart, hend⟩ := (merge_from_spec hsorted hsome).2 iv h
    exact ⟨hfull, hstart, hend⟩

end Merge

/-- A number that no interval has, or an interval. -/
inductive Piece where
  | line (n : Nat)
  | block (start stop : Nat)
deriving DecidableEq, Repr

def Piece.numbers : Piece → List Nat
  | .line n => [n]
  | .block start stop => List.range' start (stop + 1 - start)

def Piece.interval : Piece → Option (Nat × Nat)
  | .line _ => none
  | .block start stop => some (start, stop)

def Piece.count : Piece → Nat
  | .line _ => 1
  | .block start stop => stop - start + 1

/-- The piece that starts with a number, if one does. -/
def piece_at (intervals : List (Nat × Nat)) (n : Nat) : Option Piece :=
  match intervals.find? fun iv => iv.1 == n with
  | some iv => some (.block iv.1 iv.2)
  | none => if Covers intervals n then none else some (.line n)

/-- The pieces of a range. -/
def pieces (intervals : List (Nat × Nat)) (n length : Nat) : List Piece :=
  (List.range' n length).filterMap (piece_at intervals)

/-- Intervals in order, none of them empty and no two in touch. -/
structure Apart (intervals : List (Nat × Nat)) : Prop where
  full : ∀ iv ∈ intervals, iv.1 ≤ iv.2
  ordered : intervals.Pairwise fun a b => a.2 < b.1

section Pieces

variable {intervals rest : List (Nat × Nat)} {first : Nat × Nat} {n length : Nat}

theorem Apart.tail (h : Apart (first :: rest)) : Apart rest :=
  ⟨fun iv hiv => h.full iv (List.mem_cons_of_mem _ hiv), (List.pairwise_cons.1 h.ordered).2⟩

/-- The intervals behind the first start after it. -/
theorem Apart.lt_of_mem (h : Apart (first :: rest)) {iv : Nat × Nat} (hiv : iv ∈ rest) : first.2 < iv.1 :=
  (List.pairwise_cons.1 h.ordered).1 iv hiv

theorem Apart.nodup_starts (h : Apart intervals) : (intervals.map (·.1)).Nodup := by
  rw [List.Nodup, List.pairwise_map]
  apply h.ordered.imp_of_mem
  intro a b ha _ hab heq
  have hfull := h.full a ha
  omega

theorem piece_at_of_not_covers (h : Apart intervals) (hn : ¬Covers intervals n) :
    piece_at intervals n = some (.line n) := by
  have hnone : intervals.find? (fun iv => iv.1 == n) = none := by
    rw [List.find?_eq_none]
    intro iv hiv heq
    rw [beq_iff_eq] at heq
    exact hn ⟨iv, hiv, heq.le, heq ▸ h.full iv hiv⟩
  rw [piece_at, hnone]
  exact if_neg hn

theorem line_mem_pieces_iff (h : Apart intervals) {m : Nat} :
    .line m ∈ pieces intervals n length ↔ (n ≤ m ∧ m < n + length) ∧ ¬Covers intervals m := by
  rw [pieces, List.mem_filterMap]
  constructor
  · rintro ⟨k, hk, hpiece⟩
    rw [List.mem_range'_1] at hk
    rw [piece_at] at hpiece
    split at hpiece
    · simp at hpiece
    · rw [Option.ite_none_left_eq_some] at hpiece
      simp only [Option.some.injEq, Piece.line.injEq] at hpiece
      obtain ⟨hnot, rfl⟩ := hpiece
      exact ⟨hk, hnot⟩
  · rintro ⟨hm, hnot⟩
    exact ⟨m, List.mem_range'_1.2 hm, piece_at_of_not_covers h hnot⟩

private theorem piece_at_cons_of_lt (h : Apart (first :: rest)) (hn : first.2 < n) :
    piece_at (first :: rest) n = piece_at rest n := by
  have hfull := h.full first List.mem_cons_self
  have hstart : ¬(first.1 == n) = true := by
    rw [beq_iff_eq]
    omega
  have hcovers : Covers (first :: rest) n ↔ Covers rest n := by
    rw [covers_cons]
    constructor
    · rintro (hin | hin)
      · omega
      · exact hin
    · exact .inr
  rw [piece_at, List.find?_cons_of_neg (p := fun iv : Nat × Nat => iv.1 == n) hstart, piece_at]
  simp only [hcovers]

/-- The range up to the end of the first interval, and what is behind it. -/
theorem pieces_cons (h : Apart (first :: rest)) (hfrom : n ≤ first.1) (hto : first.2 < n + length) :
    pieces (first :: rest) n length =
      (List.range' n (first.1 - n)).map .line ++
        .block first.1 first.2 :: pieces rest (first.2 + 1) (n + length - (first.2 + 1)) := by
  have hfull := h.full first List.mem_cons_self
  have hsplit : List.range' n length = List.range' n (first.1 - n) ++ first.1 ::
      (List.range' (first.1 + 1) (first.2 - first.1) ++ List.range' (first.2 + 1) (n + length - (first.2 + 1))) := by
    have hlength : length = first.1 - n + (1 + (first.2 - first.1 + (n + length - (first.2 + 1)))) := by omega
    conv_lhs => rw [hlength]
    rw [← List.range'_append_1, show n + (first.1 - n) = first.1 by omega, ← List.range'_append_1,
      ← List.range'_append_1, List.range'_one, List.singleton_append,
      show first.1 + 1 + (first.2 - first.1) = first.2 + 1 by omega]
  have hbefore : (List.range' n (first.1 - n)).filterMap (piece_at (first :: rest)) =
      (List.range' n (first.1 - n)).map .line := by
    rw [← List.filterMap_eq_map']
    apply List.filterMap_congr
    intro m hm
    rw [List.mem_range'_1] at hm
    apply piece_at_of_not_covers h
    rintro ⟨iv, hiv, hin⟩
    rcases List.mem_cons.1 hiv with rfl | hiv
    · omega
    · have hlater := h.lt_of_mem hiv
      omega
  have hinside : (List.range' (first.1 + 1) (first.2 - first.1)).filterMap (piece_at (first :: rest)) = [] := by
    rw [List.filterMap_eq_nil_iff]
    intro m hm
    rw [List.mem_range'_1] at hm
    have hnone : (first :: rest).find? (fun iv => iv.1 == m) = none := by
      rw [List.find?_eq_none]
      intro iv hiv heq
      rw [beq_iff_eq] at heq
      rcases List.mem_cons.1 hiv with rfl | hiv
      · omega
      · have hlater := h.lt_of_mem hiv
        omega
    rw [piece_at, hnone]
    exact if_pos ⟨first, List.mem_cons_self, by omega, by omega⟩
  have hbehind : (List.range' (first.2 + 1) (n + length - (first.2 + 1))).filterMap (piece_at (first :: rest)) =
      pieces rest (first.2 + 1) (n + length - (first.2 + 1)) := by
    apply List.filterMap_congr
    intro m hm
    rw [List.mem_range'_1] at hm
    exact piece_at_cons_of_lt h (by omega)
  have hhere : piece_at (first :: rest) first.1 = some (.block first.1 first.2) := by
    rw [piece_at, List.find?_cons_of_pos (by simp)]
  rw [pieces, hsplit, List.filterMap_append, hbefore, List.filterMap_cons_some hhere, List.filterMap_append, hinside,
    hbehind, List.nil_append]

theorem sum_count {ps : List Piece} (hfull : ∀ iv ∈ ps.filterMap Piece.interval, iv.1 ≤ iv.2) :
    (ps.map Piece.count).sum = (ps.flatMap Piece.numbers).length := by
  rw [List.length_flatMap]
  congr 1
  apply List.map_congr_left
  intro piece hpiece
  cases piece with
  | line m => rfl
  | block start stop =>
    have hblock : start ≤ stop := hfull (start, stop) (List.mem_filterMap.2 ⟨_, hpiece, rfl⟩)
    rw [Piece.count, Piece.numbers, List.length_range']
    omega

theorem pieces_nil : pieces [] n length = (List.range' n length).map .line := by
  rw [pieces, ← List.filterMap_eq_map']
  exact List.filterMap_congr fun m _ => piece_at_of_not_covers ⟨by simp, .nil⟩ not_covers_nil

private theorem numbers_lines (numbers : List Nat) : (numbers.map Piece.line).flatMap Piece.numbers = numbers := by
  rw [List.flatMap_map]
  exact List.flatMap_singleton' numbers

private theorem interval_lines (numbers : List Nat) : (numbers.map Piece.line).filterMap Piece.interval = [] := by
  rw [List.filterMap_map, List.filterMap_eq_nil_iff]
  exact fun _ _ => rfl

/-- The pieces hold every number of the range once and in order, and their blocks are the intervals. -/
theorem pieces_spec (h : Apart intervals) (hfrom : ∀ iv ∈ intervals, n ≤ iv.1) (hto : ∀ iv ∈ intervals, iv.2 < n + length) :
    (pieces intervals n length).flatMap Piece.numbers = List.range' n length ∧
      (pieces intervals n length).filterMap Piece.interval = intervals := by
  induction intervals generalizing n length with
  | nil => rw [pieces_nil, numbers_lines, interval_lines]; exact ⟨rfl, rfl⟩
  | cons first rest ih =>
    have hfull := h.full first List.mem_cons_self
    have hstart := hfrom first List.mem_cons_self
    have hstop := hto first List.mem_cons_self
    obtain ⟨hnumbers, hblocks⟩ := @ih (first.2 + 1) (n + length - (first.2 + 1)) h.tail
      (fun iv hiv => h.lt_of_mem hiv) fun iv hiv => by
        have hend := hto iv (List.mem_cons_of_mem _ hiv)
        omega
    rw [pieces_cons h hstart hstop, List.flatMap_append, List.filterMap_append, numbers_lines, interval_lines,
      List.flatMap_cons, hnumbers, List.filterMap_cons_some (f := Piece.interval) (b := first) rfl, hblocks,
      List.nil_append]
    refine ⟨?_, rfl⟩
    have hlength : length = first.1 - n + (first.2 + 1 - first.1 + (n + length - (first.2 + 1))) := by omega
    conv_rhs => rw [hlength]
    rw [← List.range'_append_1, show n + (first.1 - n) = first.1 by omega, ← List.range'_append_1,
      show first.1 + (first.2 + 1 - first.1) = first.2 + 1 by omega]
    rfl

private theorem start_mem_numbers {ps : List Piece} {iv : Nat × Nat} (hiv : iv ∈ ps.filterMap Piece.interval)
    (hfull : iv.1 ≤ iv.2) : iv.1 ∈ ps.flatMap Piece.numbers := by
  obtain ⟨piece, hpiece, hinterval⟩ := List.mem_filterMap.1 hiv
  rw [List.mem_flatMap]
  refine ⟨piece, hpiece, ?_⟩
  cases piece with
  | line m => simp [Piece.interval] at hinterval
  | block start stop =>
    obtain rfl := Option.some.inj hinterval
    rw [Piece.numbers, List.mem_range'_1]
    dsimp only at hfull ⊢
    omega

/-- No other list of pieces does. -/
theorem pieces_unique {ps : List Piece} (h : Apart intervals) (hnumbers : ps.flatMap Piece.numbers = List.range' n length)
    (hblocks : ps.filterMap Piece.interval = intervals) : ps = pieces intervals n length := by
  induction ps generalizing n length intervals with
  | nil =>
    obtain rfl : length = 0 := by simpa using congrArg List.length hnumbers.symm
    obtain rfl := hblocks
    rfl
  | cons piece ps ih =>
    rw [List.flatMap_cons] at hnumbers
    cases piece with
    | line m =>
      rw [Piece.numbers, List.singleton_append] at hnumbers
      rw [List.filterMap_cons_none (by rfl)] at hblocks
      cases length with
      | zero => simp at hnumbers
      | succ length =>
        rw [List.range'_succ, List.cons.injEq] at hnumbers
        obtain ⟨rfl, hrest⟩ := hnumbers
        have hnot : ¬Covers intervals m := by
          rintro ⟨iv, hiv, hin⟩
          have hmem := start_mem_numbers (hblocks ▸ hiv) (h.full iv hiv)
          rw [hrest, List.mem_range'_1] at hmem
          omega
        rw [ih h hrest hblocks, pieces, pieces, List.range'_succ,
          List.filterMap_cons_some (piece_at_of_not_covers h hnot)]
    | block start stop =>
      rw [List.filterMap_cons_some (b := (start, stop)) (by rfl)] at hblocks
      subst hblocks
      have hfull : start ≤ stop := h.full (start, stop) List.mem_cons_self
      rw [Piece.numbers] at hnumbers
      have hfits : stop + 1 - start ≤ length := by
        have hlength := congrArg List.length hnumbers
        rw [List.length_append, List.length_range', List.length_range'] at hlength
        omega
      have hsplit : List.range' n length =
          List.range' n (stop + 1 - start) ++ List.range' (n + (stop + 1 - start)) (length - (stop + 1 - start)) := by
        rw [List.range'_append_1]
        congr 1
        omega
      rw [hsplit] at hnumbers
      obtain ⟨hhead, hrest⟩ := List.append_inj hnumbers (by rw [List.length_range', List.length_range'])
      obtain rfl : start = n := by
        have hcount : stop + 1 - start = stop - start + 1 := by omega
        rw [hcount, List.range'_succ, List.range'_succ, List.cons.injEq] at hhead
        exact hhead.1
      have hlast : start + (stop + 1 - start) = stop + 1 := by omega
      rw [hlast] at hrest
      have hcount : length - (stop + 1 - start) = start + length - (stop + 1) := by omega
      rw [hcount] at hrest
      rw [pieces_cons h le_rfl (by dsimp only; omega), Nat.sub_self, List.range'_zero, List.map_nil, List.nil_append,
        ← ih h.tail hrest rfl]

end Pieces

end AgenticKb.Lib.Intervals

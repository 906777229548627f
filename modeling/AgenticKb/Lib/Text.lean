import Mathlib.Data.List.Infix

namespace AgenticKb.Lib

/-! Texts as lists: replacing every occurrence of one text by another, and finding where others stand. -/

section Texts

variable {α : Type*} {old new needle x y text : List α} {sep : α}

theorem prefix_append_sep (hsep : sep ∉ needle) : needle <+: x ++ sep :: y ↔ needle <+: x := by
  constructor
  · intro h
    induction x generalizing needle with
    | nil =>
      cases needle with
      | nil => exact List.nil_prefix
      | cons first rest =>
        rw [List.nil_append, List.cons_prefix_cons] at h
        exact absurd (h.1 ▸ List.mem_cons_self) hsep
    | cons c x ih =>
      cases needle with
      | nil => exact List.nil_prefix
      | cons first rest =>
        rw [List.cons_append, List.cons_prefix_cons] at h
        rw [List.cons_prefix_cons]
        exact ⟨h.1, ih (fun hmem => hsep (List.mem_cons_of_mem _ hmem)) h.2⟩
  · intro h
    exact h.trans (List.prefix_append _ _)

theorem infix_append_sep (hsep : sep ∉ needle) (h : needle <:+: x ++ sep :: y) :
    needle <:+: x ∨ needle <:+: y := by
  induction x with
  | nil =>
    rw [List.nil_append, List.infix_cons_iff] at h
    cases h with
    | inl hprefix => exact .inl ((prefix_append_sep (x := []) hsep).mp hprefix).isInfix
    | inr hinfix => exact .inr hinfix
  | cons c x ih =>
    rw [List.cons_append, List.infix_cons_iff] at h
    cases h with
    | inl hprefix =>
      rw [← List.cons_append] at hprefix
      exact .inl ((prefix_append_sep hsep).mp hprefix).isInfix
    | inr hinfix =>
      cases ih hinfix with
      | inl hx => exact .inl (hx.trans (List.suffix_cons _ _).isInfix)
      | inr hy => exact .inr hy

/-- Two texts that share no element: an occurrence of one in what starts with the other comes after it. -/
theorem infix_of_append_disjoint (hne : needle ≠ []) (hapart : ∀ c ∈ needle, c ∉ new)
    (h : needle <:+: new ++ text) : needle <:+: text := by
  induction new with
  | nil => exact h
  | cons c new ih =>
    rw [List.cons_append, List.infix_cons_iff] at h
    cases h with
    | inl hstart =>
      cases needle with
      | nil => exact absurd rfl hne
      | cons first rest =>
        rw [List.cons_prefix_cons] at hstart
        have hhere : first ∈ c :: new := List.mem_cons.mpr (.inl hstart.1)
        exact absurd hhere (hapart first List.mem_cons_self)
    | inr hinfix => exact ih (fun d hd hmem => hapart d hd (List.mem_cons_of_mem _ hmem)) hinfix

variable [DecidableEq α]

/-- The rest of a replacement, when the next `skip` elements belong to the occurrence replaced last. -/
def replaceFrom (old new : List α) : Nat → List α → List α
  | _, [] => []
  | skip + 1, _ :: cs => replaceFrom old new skip cs
  | 0, c :: cs =>
    if old.isPrefixOf (c :: cs) then new ++ replaceFrom old new (old.length - 1) cs
    else c :: replaceFrom old new 0 cs

/-- Python's `str.replace` of a nonempty `old`: from the left, without overlaps. -/
def replace (old new text : List α) : List α := replaceFrom old new 0 text

/-- The occurrences that `replaceFrom` finds. -/
def countFrom (old : List α) : Nat → List α → Nat
  | _, [] => 0
  | skip + 1, _ :: cs => countFrom old skip cs
  | 0, c :: cs =>
    if old.isPrefixOf (c :: cs) then countFrom old (old.length - 1) cs + 1
    else countFrom old 0 cs

/-- Python's `str.count` of a nonempty `old`: from the left, without overlaps. -/
def count (old text : List α) : Nat := countFrom old 0 text

theorem replaceFrom_of_count_zero {skip : Nat} (h : countFrom old skip text = 0) :
    replaceFrom old new skip text = text.drop skip := by
  induction text generalizing skip with
  | nil => simp [replaceFrom]
  | cons c cs ih =>
    cases skip with
    | succ skip => exact ih h
    | zero =>
      rw [countFrom] at h
      by_cases hold : old.isPrefixOf (c :: cs)
      · rw [if_pos hold] at h
        omega
      · rw [if_neg hold] at h
        rw [replaceFrom, if_neg hold, ih h, List.drop_zero, List.drop_zero]

/-- Where a text is found once it stands once, and there it is replaced. -/
theorem replace_of_count_one (hne : old ≠ []) (h : count old text = 1) :
    ∃ x y, text = x ++ (old ++ y) ∧ ∀ new, replace old new text = x ++ (new ++ y) := by
  unfold count at h
  induction text with
  | nil => cases h
  | cons c cs ih =>
    rw [countFrom] at h
    by_cases hold : old.isPrefixOf (c :: cs)
    · rw [if_pos hold] at h
      obtain ⟨y, hy⟩ := List.isPrefixOf_iff_prefix.1 hold
      refine ⟨[], y, by rw [hy, List.nil_append], fun new => ?_⟩
      have hlength : 0 < old.length := List.length_pos_iff.2 hne
      have hrest : cs.drop (old.length - 1) = y := by
        have hdrop := congrArg (List.drop old.length) hy
        rw [List.drop_left] at hdrop
        rw [hdrop, ← List.drop_succ_cons (a := c)]
        congr 1
        omega
      rw [replace, replaceFrom, if_pos hold, replaceFrom_of_count_zero (by omega), hrest, List.nil_append]
    · rw [if_neg hold] at h
      obtain ⟨x, y, rfl, hreplace⟩ := ih h
      refine ⟨c :: x, y, rfl, fun new => ?_⟩
      rw [replace, replaceFrom, if_neg hold, ← replace, hreplace, List.cons_append]

/-- What the replaced text starts with, and has nothing of `new` in it, the text starts with. -/
theorem prefix_of_prefix_replace (hnew : new ≠ []) (hapart : ∀ c ∈ needle, c ∉ new)
    (h : needle <+: replaceFrom old new 0 text) : needle <+: text := by
  induction text generalizing needle with
  | nil => simpa only [replaceFrom] using h
  | cons c cs ih =>
    cases needle with
    | nil => exact List.nil_prefix
    | cons first rest =>
      rw [replaceFrom] at h
      by_cases hold : old.isPrefixOf (c :: cs)
      · rw [if_pos hold] at h
        cases new with
        | nil => exact absurd rfl hnew
        | cons d new =>
          rw [List.cons_append, List.cons_prefix_cons] at h
          exact absurd (h.1 ▸ List.mem_cons_self) (hapart first List.mem_cons_self)
      · rw [if_neg hold, List.cons_prefix_cons] at h
        rw [List.cons_prefix_cons]
        exact ⟨h.1, ih (fun d hd => hapart d (List.mem_cons_of_mem _ hd)) h.2⟩

theorem infix_of_infix_replaceFrom (hne : needle ≠ []) (hnew : new ≠ []) (hapart : ∀ c ∈ needle, c ∉ new)
    {skip : Nat} (h : needle <:+: replaceFrom old new skip text) : needle <:+: text := by
  induction text generalizing skip with
  | nil => simpa only [replaceFrom] using h
  | cons c cs ih =>
    have hlater : needle <:+: cs → needle <:+: c :: cs := fun hcs => hcs.trans (List.suffix_cons _ _).isInfix
    cases skip with
    | succ skip => exact hlater (ih h)
    | zero =>
      by_cases hold : old.isPrefixOf (c :: cs)
      · rw [replaceFrom, if_pos hold] at h
        exact hlater (ih (infix_of_append_disjoint hne hapart h))
      · have hfirst : needle <+: replaceFrom old new 0 (c :: cs) → needle <:+: c :: cs :=
          fun hprefix => (prefix_of_prefix_replace hnew hapart hprefix).isInfix
        rw [replaceFrom, if_neg hold] at h hfirst
        cases List.infix_cons_iff.mp h with
        | inl hprefix => exact hfirst hprefix
        | inr hinfix => exact hlater (ih hinfix)

/-- Replacing forms no occurrence of a text that shares nothing with the replacement. -/
theorem infix_of_infix_replace (hne : needle ≠ []) (hnew : new ≠ []) (hapart : ∀ c ∈ needle, c ∉ new)
    (h : needle <:+: replace old new text) : needle <:+: text :=
  infix_of_infix_replaceFrom hne hnew hapart h

theorem not_infix_replaceFrom (hne : old ≠ []) (hnew : new ≠ []) (hapart : ∀ c ∈ old, c ∉ new) {skip : Nat} :
    ¬ old <:+: replaceFrom old new skip text := by
  induction text generalizing skip with
  | nil =>
    intro h
    simp only [replaceFrom, List.infix_nil] at h
    exact hne h
  | cons c cs ih =>
    intro h
    cases skip with
    | succ skip => exact ih h
    | zero =>
      by_cases hold : old.isPrefixOf (c :: cs)
      · rw [replaceFrom, if_pos hold] at h
        exact ih (infix_of_append_disjoint hne hapart h)
      · have hfirst : ¬ old <+: replaceFrom old new 0 (c :: cs) := by
          intro hprefix
          have hhere : old <+: c :: cs := prefix_of_prefix_replace hnew hapart hprefix
          exact hold (List.isPrefixOf_iff_prefix.mpr hhere)
        rw [replaceFrom, if_neg hold] at h hfirst
        cases List.infix_cons_iff.mp h with
        | inl hprefix => exact hfirst hprefix
        | inr hinfix => exact ih hinfix

/-- Nothing is left of a replaced text, not even where what stood around an occurrence now meets `new`. -/
theorem not_infix_replace (hne : old ≠ []) (hnew : new ≠ []) (hapart : ∀ c ∈ old, c ∉ new) :
    ¬ old <:+: replace old new text :=
  not_infix_replaceFrom hne hnew hapart

/-! Where the texts of some marks stand in a text. -/

variable {Mark : Type*} (marks : List (Mark × List α))

/-- Every mark in the text with its position, from the left, for a text that starts at `offset`. -/
def occurrences (offset : Nat) : List α → List (Nat × Mark)
  | [] => []
  | c :: cs =>
    (marks.filter fun mark => mark.2.isPrefixOf (c :: cs)).map (fun mark => (offset, mark.1)) ++
      occurrences (offset + 1) cs

/-- No mark stands anywhere in the text. -/
def Clear (text : List α) : Prop := ∀ mark ∈ marks, ¬ mark.2 <:+: text

/-- The element is in no mark, and no mark is empty, so a mark stands on one side of it. -/
def Separates (sep : α) : Prop := ∀ mark ∈ marks, mark.2 ≠ [] ∧ sep ∉ mark.2

instance : DecidablePred (Separates marks) := fun _ => inferInstanceAs (Decidable (∀ _ ∈ _, _))

instance : DecidablePred (Clear marks) := fun _ => inferInstanceAs (Decidable (∀ _ ∈ _, _))

variable {marks}

omit [DecidableEq α] in
theorem Clear.append (hsep : Separates marks sep) (hx : Clear marks x) (hy : Clear marks y) :
    Clear marks (x ++ sep :: y) := by
  intro mark hmark h
  cases infix_append_sep (hsep mark hmark).2 h with
  | inl hleft => exact hx mark hmark hleft
  | inr hright => exact hy mark hmark hright

theorem occurrences_clear {offset : Nat} (h : Clear marks text) : occurrences marks offset text = [] := by
  induction text generalizing offset with
  | nil => rfl
  | cons c cs ih =>
    have hcs : Clear marks cs := fun mark hmark hin => h mark hmark (hin.trans (List.suffix_cons _ _).isInfix)
    have hhere : (marks.filter fun mark => mark.2.isPrefixOf (c :: cs)) = [] := by
      rw [List.filter_eq_nil_iff]
      intro mark hmark hprefix
      exact h mark hmark (List.isPrefixOf_iff_prefix.mp hprefix).isInfix
    rw [occurrences, hhere, ih hcs]
    rfl

theorem occurrences_append_sep (hsep : Separates marks sep) (offset : Nat) :
    occurrences marks offset (x ++ sep :: y) =
      occurrences marks offset x ++ occurrences marks (offset + x.length + 1) y := by
  induction x generalizing offset with
  | nil =>
    have hhere : (marks.filter fun mark => mark.2.isPrefixOf (sep :: y)) = [] := by
      rw [List.filter_eq_nil_iff]
      intro mark hmark hprefix
      have hempty : mark.2 <+: [] :=
        (prefix_append_sep (x := []) (hsep mark hmark).2).mp (List.isPrefixOf_iff_prefix.mp hprefix)
      exact (hsep mark hmark).1 (List.prefix_nil.mp hempty)
    rw [List.nil_append, occurrences.eq_2, hhere]
    rfl
  | cons c x ih =>
    have hhere : (marks.filter fun mark => mark.2.isPrefixOf (c :: x ++ sep :: y)) =
        marks.filter fun mark => mark.2.isPrefixOf (c :: x) := by
      apply List.filter_congr
      intro mark hmark
      rw [Bool.eq_iff_iff, List.isPrefixOf_iff_prefix, List.isPrefixOf_iff_prefix]
      exact prefix_append_sep (hsep mark hmark).2
    have hlength : offset + (c :: x).length + 1 = offset + 1 + x.length + 1 := by
      rw [List.length_cons]
      omega
    rw [hlength, List.cons_append, occurrences, ← List.cons_append, hhere, ih, occurrences, List.append_assoc]

theorem occurrences_offset (offset : Nat) :
    occurrences marks offset text = (occurrences marks 0 text).map fun found => (offset + found.1, found.2) := by
  induction text generalizing offset with
  | nil => rfl
  | cons c cs ih =>
    have hcs : occurrences marks (offset + 1) cs =
        (occurrences marks 1 cs).map fun found => (offset + found.1, found.2) := by
      rw [ih, ih 1, List.map_map]
      apply List.map_congr_left
      intro found _
      simp only [Function.comp_apply, Prod.mk.injEq, and_true]
      omega
    rw [occurrences, occurrences, List.map_append, hcs, List.map_map, Nat.zero_add]
    rfl

end Texts

end AgenticKb.Lib

import Mathlib.Data.List.Pairwise
import AgenticKb.Properties.PanelReconciliation

open AgenticKb.Lib

namespace AgenticKb.ReviewPanel

section Words

variable (u : Unicode)

def words (item : LensFinding) : List String := normalize_tokens u item.2.finding

/-- Two findings have the same set of words, and it is not empty. -/
def SameWords (a b : LensFinding) : Prop := words u a ≠ [] ∧ ∀ word, word ∈ words u a ↔ word ∈ words u b

/-- Findings of the same words stand in one part. -/
def Apart (parts : List (List LensFinding)) : Prop :=
  parts.Pairwise fun xs ys => ∀ a ∈ xs, ∀ b ∈ ys, ¬SameWords u a b

/-- Every reported finding is in exactly one merged finding, those of the same words are in the same one, and no two
merged findings hold findings of the same words. -/
structure IdenticalMerge (reviews : List PanelistReview) : Prop where
  findings : (reconcile u reviews).findings = (absorption u reviews).map (·.1)
  once : ((absorption u reviews).flatMap (·.2)).Perm (reported reviews)
  together : ∀ a ∈ reported reviews, ∀ b ∈ reported reviews, SameWords u a b →
    ∃ entry ∈ absorption u reviews, a ∈ entry.2 ∧ b ∈ entry.2
  apart : Apart u ((absorption u reviews).map (·.2))

/-- Where an earlier finding has the words of the next one, its group has not grown to more than ten words for every
seven of theirs, and no group before it has come to resemble them. -/
def FindsItsOwn (traced : List (Group × List LensFinding)) (item : LensFinding) : Prop :=
  ∀ before entry after, traced = before ++ entry :: after → (∃ other ∈ entry.2, SameWords u other item) →
    7 * entry.1.tokens.length ≤ 10 * (words u item).length ∧
      ∀ earlier ∈ before, is_duplicate earlier.1.tokens (words u item) = false

/-- A group holds the words of all that it has absorbed. -/
def HoldsWords (entry : Group × List LensFinding) : Prop :=
  entry.1.tokens.Nodup ∧ ∀ item ∈ entry.2, words u item ⊆ entry.1.tokens

end Words

section Resemblance

variable {u : Unicode} {a b : LensFinding} {s t : List String}

theorem SameWords.symm (h : SameWords u a b) : SameWords u b a := by
  refine ⟨?_, fun word => (h.2 word).symm⟩
  intro hnil
  obtain ⟨word, hword⟩ := List.exists_mem_of_ne_nil _ h.1
  have hmem := (h.2 word).1 hword
  rw [hnil] at hmem
  exact List.not_mem_nil hmem

theorem sameWords_of_finding_eq (hne : words u a ≠ []) (h : a.2.finding = b.2.finding) : SameWords u a b := by
  refine ⟨hne, fun word => ?_⟩
  rw [words, words, h]

theorem nodup_words (item : LensFinding) : (words u item).Nodup := List.nodup_dedup _

/-- A set resembles a part of it that has seven tenths of its words. -/
theorem is_duplicate_iff_of_subset (hs : s.Nodup) (ht : t.Nodup) (hne : t ≠ []) (hsub : t ⊆ s) :
    is_duplicate s t = true ↔ 7 * s.length ≤ 10 * t.length := by
  have hunion : (s ∪ t).Perm s := by
    apply (List.perm_ext_iff_of_nodup (ht.union s) hs).2
    intro word
    rw [List.mem_union_iff]
    exact ⟨fun h => h.elim id fun h => hsub h, .inl⟩
  have hinter : (s ∩ t).Perm t := by
    apply (List.perm_ext_iff_of_nodup (hs.inter t) ht).2
    intro word
    rw [List.mem_inter_iff]
    exact ⟨fun h => h.2, fun h => ⟨hsub h, h⟩⟩
  have hsne : s ≠ [] := by
    intro hnil
    rw [hnil] at hsub
    exact hne (List.subset_nil.1 hsub)
  rw [is_duplicate, hunion.length_eq, hinter.length_eq]
  simp [hne, hsne]

end Resemblance

section Step

variable {u : Unicode} {traced : List (Group × List LensFinding)} {item : LensFinding}

/-- A finding starts a group behind all others, or the first group that it resembles absorbs it. -/
theorem trace_finding_cases (u : Unicode) (traced : List (Group × List LensFinding)) (item : LensFinding) :
    ((∀ entry ∈ traced, is_duplicate entry.1.tokens (words u item) = false) ∧
      trace_finding u traced item = traced ++ [(.new u item.1 item.2, [item])]) ∨
    ∃ before entry after, traced = before ++ entry :: after ∧
      (∀ earlier ∈ before, is_duplicate earlier.1.tokens (words u item) = false) ∧
      is_duplicate entry.1.tokens (words u item) = true ∧
      trace_finding u traced item = before ++ (entry.1.absorb u item.1 item.2, entry.2 ++ [item]) :: after := by
  induction traced with
  | nil => exact .inl ⟨fun _ hentry => absurd hentry List.not_mem_nil, rfl⟩
  | cons first traced ih =>
    by_cases hdup : is_duplicate first.1.tokens (words u item) = true
    · refine .inr ⟨[], first, traced, rfl, fun _ hentry => absurd hentry List.not_mem_nil, hdup, ?_⟩
      rw [trace_finding, ← words, if_pos hdup]
      rfl
    · have hfalse := Bool.eq_false_iff.2 hdup
      have hstep : trace_finding u (first :: traced) item = first :: trace_finding u traced item := by
        rw [trace_finding, ← words, if_neg hdup]
      obtain ⟨hnone, hlast⟩ | ⟨before, entry, after, rfl, hbefore, hentry, hsplit⟩ := ih
      · exact .inl ⟨List.forall_mem_cons.2 ⟨hfalse, hnone⟩, by rw [hstep, hlast, List.cons_append]⟩
      · exact .inr ⟨first :: before, entry, after, rfl, List.forall_mem_cons.2 ⟨hfalse, hbefore⟩, hentry,
          by rw [hstep, hsplit, List.cons_append]⟩

private theorem tokens_new (item : LensFinding) : (Group.new u item.1 item.2).tokens = words u item := by
  rw [Group.new, words]

private theorem tokens_absorb (group : Group) (item : LensFinding) :
    (group.absorb u item.1 item.2).tokens = group.tokens ∪ words u item := by
  rw [Group.absorb, words]

theorem holdsWords_trace_finding (h : ∀ entry ∈ traced, HoldsWords u entry) (item : LensFinding) :
    ∀ entry ∈ trace_finding u traced item, HoldsWords u entry := by
  obtain ⟨-, hnew⟩ | ⟨before, grown, after, rfl, -, -, habsorb⟩ := trace_finding_cases u traced item
  · rw [hnew, List.forall_mem_append]
    refine ⟨h, List.forall_mem_singleton.2 ?_⟩
    rw [HoldsWords, tokens_new]
    refine ⟨nodup_words item, fun other hother => ?_⟩
    rw [List.mem_singleton.1 hother]
    exact List.Subset.refl _
  · rw [List.forall_mem_append, List.forall_mem_cons] at h
    obtain ⟨hbefore, ⟨hnodup, hwords⟩, hafter⟩ := h
    rw [habsorb, List.forall_mem_append, List.forall_mem_cons]
    refine ⟨hbefore, ?_, hafter⟩
    rw [HoldsWords, tokens_absorb, List.forall_mem_append]
    refine ⟨(nodup_words item).union _, ?_, ?_⟩
    · intro other hother word hword
      exact List.mem_union_iff.2 (.inl (hwords other hother hword))
    · intro other hother word hword
      rw [List.mem_singleton.1 hother] at hword
      exact List.mem_union_iff.2 (.inr hword)

/-- A part may take in a finding if no other part holds one of the same words. -/
theorem apart_insert {parts rest : List (List LensFinding)} {xs : List LensFinding} :
    Apart u (parts ++ (xs ++ [item]) :: rest) ↔
      Apart u (parts ++ xs :: rest) ∧ ∀ ys ∈ parts ++ rest, ∀ b ∈ ys, ¬SameWords u b item := by
  have hsymm : ∀ {xs ys : List LensFinding}, (∀ a ∈ xs, ∀ b ∈ ys, ¬SameWords u a b) →
      ∀ a ∈ ys, ∀ b ∈ xs, ¬SameWords u a b := fun h a ha b hb hsame => h b hb a ha hsame.symm
  have hfront : ∀ zs : List LensFinding, Apart u (parts ++ zs :: rest) ↔
      (∀ ys ∈ parts ++ rest, ∀ a ∈ zs, ∀ b ∈ ys, ¬SameWords u a b) ∧ Apart u (parts ++ rest) := by
    intro zs
    rw [Apart, List.Perm.pairwise_iff hsymm List.perm_middle, List.pairwise_cons, Apart]
  rw [hfront, hfront]
  constructor
  · rintro ⟨hall, hrest⟩
    refine ⟨⟨fun ys hys a ha => hall ys hys a (List.mem_append_left _ ha), hrest⟩, fun ys hys b hb hsame => ?_⟩
    exact hall ys hys item (List.mem_append_right _ List.mem_cons_self) b hb hsame.symm
  · rintro ⟨⟨hall, hrest⟩, hitem⟩
    refine ⟨fun ys hys a ha b hb hsame => ?_, hrest⟩
    cases List.mem_append.1 ha with
    | inl ha => exact hall ys hys a ha b hb hsame
    | inr ha =>
      rw [List.mem_singleton.1 ha] at hsame
      exact hitem ys hys b hb hsame.symm

theorem apart_append_singleton {parts : List (List LensFinding)} :
    Apart u (parts ++ [[item]]) ↔ Apart u parts ∧ ∀ ys ∈ parts, ∀ b ∈ ys, ¬SameWords u b item := by
  have hnil : Apart u (parts ++ [[]]) ↔ Apart u parts := by
    rw [Apart, List.pairwise_append]
    refine ⟨fun h => h.1, fun h => ⟨h, List.pairwise_singleton _ _, ?_⟩⟩
    intro xs _ ys hys a _ b hb
    rw [List.mem_singleton.1 hys] at hb
    exact absurd hb List.not_mem_nil
  have hinsert : Apart u (parts ++ [[] ++ [item]]) ↔
      Apart u (parts ++ [[]]) ∧ ∀ ys ∈ parts ++ [], ∀ b ∈ ys, ¬SameWords u b item := apart_insert
  rwa [hnil, List.append_nil, List.nil_append] at hinsert

/-- The group of an earlier finding of the same words resembles them as long as it has not outgrown them. -/
theorem resembles_iff {entry : Group × List LensFinding} (h : HoldsWords u entry) {other : LensFinding}
    (hother : other ∈ entry.2) (hsame : SameWords u other item) :
    is_duplicate entry.1.tokens (words u item) = true ↔ 7 * entry.1.tokens.length ≤ 10 * (words u item).length := by
  apply is_duplicate_iff_of_subset h.1 (nodup_words item) hsame.symm.1
  exact fun word hword => h.2 other hother ((hsame.2 word).2 hword)

/-- Two places of a list are the same, or the first is before the second, or behind it. -/
private theorem split_cases {α : Type*} {before after front back : List α} {x y : α}
    (h : before ++ x :: after = front ++ y :: back) : (front = before ∧ y = x) ∨ y ∈ before ∨ y ∈ after := by
  rcases List.append_eq_append_iff.1 h with ⟨mid, hfront, hrest⟩ | ⟨mid, hbefore, hrest⟩
  · cases mid with
    | nil =>
      obtain ⟨hxy, -⟩ := List.cons.inj hrest
      exact .inl ⟨by rw [hfront, List.append_nil], hxy.symm⟩
    | cons z mid =>
      obtain ⟨-, hafter⟩ := List.cons.inj hrest
      exact .inr (.inr (hafter ▸ List.mem_append_right _ List.mem_cons_self))
  · cases mid with
    | nil =>
      obtain ⟨hyx, -⟩ := List.cons.inj hrest
      exact .inl ⟨by rw [hbefore, List.append_nil], hyx⟩
    | cons z mid =>
      obtain ⟨hyz, -⟩ := List.cons.inj hrest
      exact .inr (.inl (by rw [hbefore, hyz]; exact List.mem_append_right _ List.mem_cons_self))

/-- A finding leaves the parts apart exactly where it finds its own. -/
theorem apart_trace_finding (h : ∀ entry ∈ traced, HoldsWords u entry) (item : LensFinding) :
    Apart u ((trace_finding u traced item).map (·.2)) ↔ Apart u (traced.map (·.2)) ∧ FindsItsOwn u traced item := by
  obtain ⟨hnone, hnew⟩ | ⟨before, grown, after, rfl, hbefore, hgrown, habsorb⟩ := trace_finding_cases u traced item
  · rw [hnew, List.map_append, List.map_cons, List.map_nil, apart_append_singleton, List.forall_mem_map]
    apply and_congr_right'
    constructor
    · rintro hapart front entry back rfl ⟨other, hother, hsame⟩
      exact absurd hsame (hapart entry (List.mem_append_right _ List.mem_cons_self) other hother)
    · intro hown entry hentry other hother hsame
      obtain ⟨front, back, hsplit⟩ := List.append_of_mem hentry
      have hlarge := (hown front entry back hsplit ⟨other, hother, hsame⟩).1
      have hdup := (resembles_iff (h entry hentry) hother hsame).2 hlarge
      rw [hnone entry hentry] at hdup
      cases hdup
  · rw [habsorb, List.map_append, List.map_cons, apart_insert, List.map_append, List.map_cons, ← List.map_append,
      List.forall_mem_map]
    apply and_congr_right'
    constructor
    · rintro hapart front entry back hsplit ⟨other, hother, hsame⟩
      obtain ⟨rfl, rfl⟩ | hmem | hmem := split_cases hsplit
      · exact ⟨(resembles_iff (h entry (by simp)) hother hsame).1 hgrown, hbefore⟩
      · exact absurd hsame (hapart entry (List.mem_append_left _ hmem) other hother)
      · exact absurd hsame (hapart entry (List.mem_append_right _ hmem) other hother)
    · intro hown entry hentry other hother hsame
      cases List.mem_append.1 hentry with
      | inl hmem =>
        obtain ⟨front, mid, hsplit⟩ := List.append_of_mem hmem
        have hlarge := (hown front entry (mid ++ grown :: after) (by rw [hsplit]; simp) ⟨other, hother, hsame⟩).1
        have hdup := (resembles_iff (h entry (List.mem_append_left _ hmem)) hother hsame).2 hlarge
        rw [hbefore entry hmem] at hdup
        cases hdup
      | inr hmem =>
        obtain ⟨mid, back, hsplit⟩ := List.append_of_mem hmem
        have hearlier := (hown (before ++ grown :: mid) entry back (by rw [hsplit]; simp) ⟨other, hother, hsame⟩).2
          grown (by simp)
        rw [hgrown] at hearlier
        cases hearlier

end Step

section Review

variable {u : Unicode} {reviews : List PanelistReview}

/-- The parts stay apart exactly where every finding of the panel finds its own. -/
theorem apart_traced_groups :
    Apart u ((traced_groups u reviews).map (·.2)) ↔ Along (trace_finding u) (FindsItsOwn u) [] (reported reviews) := by
  have hrun : Apart u (((reported reviews).foldl (trace_finding u) []).map (·.2)) ↔
      Apart u [] ∧ Along (trace_finding u) (FindsItsOwn u) [] (reported reviews) :=
    along_iff_of_step (I := fun traced => ∀ entry ∈ traced, HoldsWords u entry)
      (P := fun traced => Apart u (traced.map (·.2))) (fun _ item h => holdsWords_trace_finding h item)
      (fun _ item h => apart_trace_finding h item) (by simp)
  rw [traced_groups, hrun]
  exact and_iff_right List.Pairwise.nil

/-- The review only sorts the parts. -/
theorem apart_absorption : Apart u ((absorption u reviews).map (·.2)) ↔ Apart u ((traced_groups u reviews).map (·.2)) := by
  have hsorted : (absorption u reviews).Perm ((traced_groups u reviews).map fun entry => (entry.1.merged, entry.2)) :=
    List.perm_insertionSort _ _
  have hparts := hsorted.map (·.2)
  rw [List.map_map] at hparts
  exact hparts.pairwise_iff fun h a ha b hb hsame => h b hb a ha hsame.symm

/-- Findings of the same words end up in one merged finding exactly where each finding, as it is read, finds the group
of the earlier ones: that group has not outgrown their words, and no group before it has come to resemble them. -/
theorem identical_merge_iff (u : Unicode) (reviews : List PanelistReview) :
    IdenticalMerge u reviews ↔ Along (trace_finding u) (FindsItsOwn u) [] (reported reviews) := by
  rw [← apart_traced_groups, ← apart_absorption]
  refine ⟨fun h => h.apart, fun h => ⟨absorption_fst u reviews, absorption_perm u reviews, ?_, h⟩⟩
  intro a ha b hb hsame
  obtain ⟨entry, hentry, ha⟩ := List.mem_flatMap.1 ((absorption_perm u reviews).mem_iff.2 ha)
  obtain ⟨other, hother, hb⟩ := List.mem_flatMap.1 ((absorption_perm u reviews).mem_iff.2 hb)
  by_cases heq : entry = other
  · exact ⟨entry, hentry, ha, heq ▸ hb⟩
  · have : Std.Symm fun entry other : MergedFinding × List LensFinding =>
        ∀ a ∈ entry.2, ∀ b ∈ other.2, ¬SameWords u a b := ⟨fun _ _ h a ha b hb hsame => h b hb a ha hsame.symm⟩
    rw [Apart, List.pairwise_map] at h
    exact absurd hsame (h.forall hentry hother heq a ha b hb)

/-- Three findings in a row, each with one word more, and the first one again. -/
def reworded : List PanelistReview :=
  [{ lens := "bug"
     review :=
      { verdict := .request_changes
        findings :=
          [{ severity := .major, finding := "cache write race", evidence_ids := ["cache.py:42"] },
            { severity := .major, finding := "cache write race retry", evidence_ids := ["cache.py:42"] },
            { severity := .major, finding := "cache write race retry loop", evidence_ids := ["cache.py:42"] }] } },
    { lens := "security"
      review :=
       { verdict := .request_changes
         findings := [{ severity := .major, finding := "cache write race", evidence_ids := ["cache.py:42"] }] } }]

private def repeated (lens : String) : LensFinding :=
  (lens, { severity := .major, finding := "cache write race", evidence_ids := ["cache.py:42"] })

/-- The group has outgrown its own first finding. -/
theorem repeated_finding_kept_apart : ¬IdenticalMerge .ascii reworded := by
  intro h
  have hsame : SameWords .ascii (repeated "bug") (repeated "security") :=
    sameWords_of_finding_eq (by decide +kernel) rfl
  obtain ⟨entry, hentry, hboth⟩ := h.together _ (by decide +kernel) _ (by decide +kernel) hsame
  have hapart : ∀ entry ∈ absorption .ascii reworded, ¬(repeated "bug" ∈ entry.2 ∧ repeated "security" ∈ entry.2) := by
    decide +kernel
  exact hapart entry hentry hboth

end Review

end AgenticKb.ReviewPanel

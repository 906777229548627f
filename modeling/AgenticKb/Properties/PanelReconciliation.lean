import AgenticKb.Lib.Run
import AgenticKb.ReviewPanel.Reconcile

open AgenticKb.Lib

namespace AgenticKb.ReviewPanel

/-- A finding beside the lens that reports it. -/
abbrev LensFinding := String × ReviewFinding

/-- Everything the panel reports, in order. -/
def reported (reviews : List PanelistReview) : List LensFinding :=
  reviews.flatMap fun panelist => panelist.review.findings.map fun finding => (panelist.lens, finding)

/-- `add_finding`, with the findings that each group has absorbed so far. -/
def trace_finding (u : Unicode) (traced : List (Group × List LensFinding)) (item : LensFinding) :
    List (Group × List LensFinding) :=
  match traced with
  | [] => [(.new u item.1 item.2, [item])]
  | entry :: traced =>
    if is_duplicate entry.1.tokens (normalize_tokens u item.2.finding) then
      (entry.1.absorb u item.1 item.2, entry.2 ++ [item]) :: traced
    else entry :: trace_finding u traced item

/-- The groups of a panel, each beside the findings it has absorbed. -/
def traced_groups (u : Unicode) (reviews : List PanelistReview) : List (Group × List LensFinding) :=
  (reported reviews).foldl (trace_finding u) []

/-- The merged findings in the order of the review, each beside the findings it has absorbed. -/
def absorption (u : Unicode) (reviews : List PanelistReview) : List (MergedFinding × List LensFinding) :=
  sorted (fun a b => decide (SEVERITY_RANK a.1.severity ≤ SEVERITY_RANK b.1.severity))
    ((traced_groups u reviews).map fun entry => (entry.1.merged, entry.2))

/-- A merged finding neither drops nor softens what it has absorbed. -/
structure Faithful (items : List LensFinding) (merged : MergedFinding) : Prop where
  severity : ∀ item ∈ items, SEVERITY_RANK merged.severity ≤ SEVERITY_RANK item.2.severity
  lenses : ∀ item ∈ items, item.1 ∈ merged.lenses
  evidence : ∀ item ∈ items, ∀ id ∈ item.2.evidence_ids, id ∈ merged.evidence_ids
  text : ∃ item ∈ items, item.2.severity = merged.severity ∧ item.2.finding = merged.finding
  disagreement : merged.disagreement.isSome = true ↔ ∃ a ∈ items, ∃ b ∈ items, a.2.severity ≠ b.2.severity

/-- Every reported finding is absorbed by exactly one merged finding, every merged finding is faithful to what
it has absorbed, and the most severe ones come first. -/
structure FaithfulReview (u : Unicode) (reviews : List PanelistReview) : Prop where
  findings : (reconcile u reviews).findings = (absorption u reviews).map (·.1)
  absorbed : ((absorption u reviews).flatMap (·.2)).Perm (reported reviews)
  faithful : ∀ entry ∈ absorption u reviews, Faithful entry.2 entry.1
  ranked : (reconcile u reviews).findings.Pairwise fun a b => SEVERITY_RANK a.severity ≤ SEVERITY_RANK b.severity

/-- The severity that a lens reports last. -/
def last_word (items : List LensFinding) (lens : String) : Option Severity :=
  (items.reverse.find? fun item => item.1 == lens).map (·.2.severity)

/-- Some lens has the most severe report as its last word, and lenses whose last words agree have never said
anything else. -/
def LastWordsHold (items : List LensFinding) : Prop :=
  (∃ item ∈ items, last_word items item.1 = some item.2.severity ∧
    ∀ other ∈ items, SEVERITY_RANK item.2.severity ≤ SEVERITY_RANK other.2.severity) ∧
  ((∃ a ∈ items, ∃ b ∈ items, a.2.severity ≠ b.2.severity) →
    ∃ a ∈ items, ∃ b ∈ items, last_word items a.1 ≠ last_word items b.1)

section Trace

variable {u : Unicode}

/-- The severities a group keeps: a lens that reports again overwrites its own. -/
def kept_severities (items : List LensFinding) : Dict String Severity :=
  items.foldl (fun (d : Dict String Severity) item => d.set item.1 item.2.severity) []

/-- What a group knows of the findings it has absorbed. -/
structure Traces (group : Group) (items : List LensFinding) : Prop where
  severities : group.severities = kept_severities items
  texts : group.texts = items.map fun item => (item.2.severity, item.2.finding)
  evidence : ∀ item ∈ items, ∀ id ∈ item.2.evidence_ids, id ∈ group.evidence

theorem traces_new (item : LensFinding) : Traces (.new u item.1 item.2) [item] := by
  refine ⟨rfl, rfl, ?_⟩
  intro other hother id hid
  rw [List.mem_singleton.1 hother] at hid
  exact List.mem_dedup.2 hid

theorem Traces.absorb {group : Group} {items : List LensFinding} (h : Traces group items) (item : LensFinding) :
    Traces (group.absorb u item.1 item.2) (items ++ [item]) := by
  refine ⟨?_, ?_, ?_⟩
  · rw [kept_severities, List.foldl_append, ← kept_severities, ← h.severities]
    rfl
  · rw [List.map_append, ← h.texts]
    rfl
  · intro other hother id hid
    rw [Group.absorb, List.mem_union_iff, List.mem_dedup]
    cases List.mem_append.1 hother with
    | inl hold => exact .inl (h.evidence other hold id hid)
    | inr hnew => exact .inr (List.mem_singleton.1 hnew ▸ hid)

theorem trace_finding_fst (traced : List (Group × List LensFinding)) (item : LensFinding) :
    (trace_finding u traced item).map (·.1) = add_finding u item.1 item.2 (traced.map (·.1)) := by
  induction traced with
  | nil => rfl
  | cons entry traced ih =>
    rw [trace_finding, List.map_cons, add_finding]
    split
    · rfl
    · rw [List.map_cons, ih]

theorem trace_finding_perm (traced : List (Group × List LensFinding)) (item : LensFinding) :
    ((trace_finding u traced item).flatMap (·.2)).Perm (traced.flatMap (·.2) ++ [item]) := by
  induction traced with
  | nil => exact .refl _
  | cons entry traced ih =>
    rw [trace_finding]
    split
    · simp only [List.flatMap_cons, List.append_assoc]
      exact List.perm_append_comm.append_left _
    · simp only [List.flatMap_cons, List.append_assoc]
      exact ih.append_left _

theorem traces_trace_finding {traced : List (Group × List LensFinding)} (h : ∀ entry ∈ traced, Traces entry.1 entry.2)
    (item : LensFinding) : ∀ entry ∈ trace_finding u traced item, Traces entry.1 entry.2 := by
  induction traced with
  | nil =>
    intro entry hentry
    rw [List.mem_singleton.1 hentry]
    exact traces_new item
  | cons first traced ih =>
    intro entry hentry
    rw [trace_finding] at hentry
    split at hentry
    · cases List.mem_cons.1 hentry with
      | inl heq =>
        rw [heq]
        exact (h first List.mem_cons_self).absorb item
      | inr hrest => exact h entry (List.mem_cons_of_mem _ hrest)
    · cases List.mem_cons.1 hentry with
      | inl heq =>
        rw [heq]
        exact h first List.mem_cons_self
      | inr hrest => exact ih (fun other hother => h other (List.mem_cons_of_mem _ hother)) entry hrest

end Trace

section Group

variable {items : List LensFinding} {group : Group}

theorem nodup_kept_severities (items : List LensFinding) : ((kept_severities items).map (·.1)).Nodup := by
  apply foldl_invariant (I := fun d : Dict String Severity => (d.map (·.1)).Nodup)
  · exact fun d item _ h => Dict.nodup_set h
  · exact List.nodup_nil

/-- A group keeps the last word of every lens. -/
theorem mem_kept_severities {lens : String} {severity : Severity} :
    (lens, severity) ∈ kept_severities items ↔ last_word items lens = some severity := by
  have hget : (kept_severities items).get? lens = last_word items lens := by
    rw [kept_severities, Dict.get?_foldl_set (fun item : LensFinding => item.1) (fun item => item.2.severity), last_word]
    exact Option.or_none
  rw [← hget]
  exact ⟨Dict.get?_of_mem (nodup_kept_severities items), Dict.mem_of_get?⟩

/-- A last word is that of a finding. -/
theorem exists_of_last_word {lens : String} {severity : Severity} (h : last_word items lens = some severity) :
    ∃ item ∈ items, item.1 = lens ∧ item.2.severity = severity := by
  obtain ⟨item, hfind, hseverity⟩ := Option.map_eq_some_iff.1 h
  have hlens := List.find?_some hfind
  exact ⟨item, List.mem_reverse.1 (List.mem_of_find?_eq_some hfind), beq_iff_eq.1 hlens, hseverity⟩

theorem last_word_isSome {item : LensFinding} (h : item ∈ items) : ∃ severity, last_word items item.1 = some severity := by
  cases hfind : items.reverse.find? (fun other => other.1 == item.1) with
  | none =>
    have hnone := List.find?_eq_none.1 hfind item (List.mem_reverse.2 h)
    simp at hnone
  | some other => exact ⟨other.2.severity, by rw [last_word, hfind]; rfl⟩

theorem one_lt_length_dedup {α : Type*} [DecidableEq α] {xs : List α} :
    1 < xs.dedup.length ↔ ∃ a ∈ xs, ∃ b ∈ xs, a ≠ b := by
  have hmem : ∀ a, a ∈ xs ↔ a ∈ xs.dedup := fun a => List.mem_dedup.symm
  have hnodup := List.nodup_dedup xs
  simp only [hmem]
  generalize xs.dedup = ys at hnodup
  cases ys with
  | nil => simp
  | cons a ys =>
    cases ys with
    | nil => simp
    | cons b ys =>
      simp only [List.nodup_cons, List.mem_cons, not_or] at hnodup
      refine ⟨fun _ => ⟨a, by simp, b, by simp, hnodup.1.1⟩, fun _ => ?_⟩
      rw [List.length_cons, List.length_cons]
      omega

theorem SEVERITY_RANK_injective {a b : Severity} (h : SEVERITY_RANK a = SEVERITY_RANK b) : a = b := by
  cases a <;> cases b <;> first | rfl | simp [SEVERITY_RANK] at h

/-- A merged finding reports a disagreement if two lenses have different last words. -/
theorem Traces.disagreement_iff (h : Traces group items) : group.merged.disagreement.isSome = true ↔
    ∃ a ∈ items, ∃ b ∈ items, last_word items a.1 ≠ last_word items b.1 := by
  have hmerged : group.merged.disagreement.isSome = true ↔ 1 < ((kept_severities items).map (·.2)).dedup.length := by
    rw [← h.severities, Group.merged]
    split
    · rename_i hmany
      exact ⟨fun _ => hmany, fun _ => rfl⟩
    · rename_i hfew
      exact ⟨fun hsome => by simp at hsome, fun hmany => absurd hmany hfew⟩
  rw [hmerged, one_lt_length_dedup]
  constructor
  · intro hdiffer
    obtain ⟨a, ha, b, hb, hne⟩ := hdiffer
    obtain ⟨entry, hentry, rfl⟩ := List.mem_map.1 ha
    obtain ⟨other, hother, rfl⟩ := List.mem_map.1 hb
    have hlast := mem_kept_severities.1 hentry
    have hlast' := mem_kept_severities.1 hother
    obtain ⟨item, hitem, hlens, -⟩ := exists_of_last_word hlast
    obtain ⟨item', hitem', hlens', -⟩ := exists_of_last_word hlast'
    refine ⟨item, hitem, item', hitem', ?_⟩
    rw [hlens, hlens', hlast, hlast']
    exact fun heq => hne (Option.some.inj heq)
  · intro hdiffer
    obtain ⟨a, ha, b, hb, hne⟩ := hdiffer
    obtain ⟨severity, hlast⟩ := last_word_isSome ha
    obtain ⟨severity', hlast'⟩ := last_word_isSome hb
    refine ⟨severity, List.mem_map.2 ⟨_, mem_kept_severities.2 hlast, rfl⟩, severity',
      List.mem_map.2 ⟨_, mem_kept_severities.2 hlast', rfl⟩, ?_⟩
    exact fun heq => hne (by rw [hlast, hlast', heq])

/-- The severity of a merged finding is the most severe of the last words. -/
theorem Traces.severity_spec (h : Traces group items) :
    (∃ item ∈ items, last_word items item.1 = some group.merged.severity ∧ item.2.severity = group.merged.severity) ∧
      ∀ item ∈ items, ∀ severity ∈ last_word items item.1,
        SEVERITY_RANK group.merged.severity ≤ SEVERITY_RANK severity := by
  have hmem := min_by_mem (fun entry : String × Severity => SEVERITY_RANK entry.2) group.severities_ne
  constructor
  · have hkept : ∀ entry ∈ group.severities, entry ∈ kept_severities items := by
      rw [h.severities]
      exact fun entry hentry => hentry
    have hlast := mem_kept_severities.1 (hkept _ hmem)
    obtain ⟨item, hitem, hlens, hseverity⟩ := exists_of_last_word hlast
    exact ⟨item, hitem, by rw [hlens]; exact hlast, hseverity⟩
  · intro item hitem severity hlast
    have hentry : (item.1, severity) ∈ group.severities := h.severities ▸ mem_kept_severities.2 hlast
    exact min_by_le (fun entry : String × Severity => SEVERITY_RANK entry.2) group.severities_ne hentry

/-- The text of a merged finding is that of one of the most severe findings. -/
theorem Traces.text_spec (h : Traces group items) : ∃ item ∈ items, item.2.finding = group.merged.finding ∧
    ∀ other ∈ items, SEVERITY_RANK item.2.severity ≤ SEVERITY_RANK other.2.severity := by
  have htexts : ∀ pair ∈ group.texts, ∃ item ∈ items, (item.2.severity, item.2.finding) = pair := by
    rw [h.texts]
    exact fun pair => List.mem_map.1
  obtain ⟨item, hitem, heq⟩ :=
    htexts _ (min_by_mem (fun pair : Severity × String => SEVERITY_RANK pair.1) group.texts_ne)
  refine ⟨item, hitem, congrArg Prod.snd heq, ?_⟩
  intro other hother
  have hpair : (other.2.severity, other.2.finding) ∈ group.texts := h.texts ▸ List.mem_map.2 ⟨other, hother, rfl⟩
  have hle := min_by_le (fun pair : Severity × String => SEVERITY_RANK pair.1) group.texts_ne hpair
  rwa [show item.2.severity = _ from congrArg Prod.fst heq]

/-- A group is merged faithfully if and only if the last words of its lenses hold what has been said. -/
theorem Traces.faithful_iff (h : Traces group items) : Faithful items group.merged ↔ LastWordsHold items := by
  obtain ⟨⟨top, htop, hlast, hseverity⟩, hmin⟩ := h.severity_spec
  constructor
  · intro hfaithful
    refine ⟨⟨top, htop, by rw [hlast, hseverity], ?_⟩, ?_⟩
    · rw [hseverity]
      exact hfaithful.severity
    · intro hdiffer
      exact h.disagreement_iff.1 (hfaithful.disagreement.2 hdiffer)
  · intro hhold
    obtain ⟨⟨most, hmost, hword, hleast⟩, hdispute⟩ := hhold
    have hsevere : ∀ item ∈ items, SEVERITY_RANK group.merged.severity ≤ SEVERITY_RANK item.2.severity :=
      fun item hitem => Nat.le_trans (hmin most hmost _ hword) (hleast item hitem)
    obtain ⟨said, hsaid, htext, hstrongest⟩ := h.text_spec
    refine ⟨hsevere, ?_, ?_, ?_, ?_⟩
    · intro item hitem
      obtain ⟨severity, hword⟩ := last_word_isSome hitem
      rw [Group.merged, mem_sorted, h.severities]
      exact List.mem_map.2 ⟨_, mem_kept_severities.2 hword, rfl⟩
    · intro item hitem id hid
      rw [Group.merged, mem_sorted]
      exact h.evidence item hitem id hid
    · refine ⟨said, hsaid, SEVERITY_RANK_injective ?_, htext⟩
      have hle := hstrongest top htop
      rw [hseverity] at hle
      exact Nat.le_antisymm hle (hsevere said hsaid)
    · rw [h.disagreement_iff]
      constructor
      · intro hwords
        obtain ⟨a, ha, b, hb, hne⟩ := hwords
        obtain ⟨severity, hword⟩ := last_word_isSome ha
        obtain ⟨severity', hword'⟩ := last_word_isSome hb
        obtain ⟨item, hitem, -, hclaim⟩ := exists_of_last_word hword
        obtain ⟨item', hitem', -, hclaim'⟩ := exists_of_last_word hword'
        refine ⟨item, hitem, item', hitem', ?_⟩
        rw [hclaim, hclaim']
        exact fun heq => hne (by rw [hword, hword', heq])
      · exact hdispute

end Group

section Review

variable (u : Unicode) (reviews : List PanelistReview)

theorem traced_groups_fst : (traced_groups u reviews).map (·.1) = groups u reviews := by
  have hfold : ∀ (items : List LensFinding) (traced : List (Group × List LensFinding)),
      (items.foldl (trace_finding u) traced).map (·.1) =
        items.foldl (fun groups item => add_finding u item.1 item.2 groups) (traced.map (·.1)) := by
    intro items
    induction items with
    | nil => exact fun traced => rfl
    | cons item items ih =>
      intro traced
      rw [List.foldl_cons, List.foldl_cons, ih, trace_finding_fst]
  rw [traced_groups, hfold, reported, List.foldl_flatMap]
  simp only [List.foldl_map]
  rfl

theorem traced_groups_perm : ((traced_groups u reviews).flatMap (·.2)).Perm (reported reviews) := by
  have hfold : ∀ (items : List LensFinding) (traced : List (Group × List LensFinding)),
      ((items.foldl (trace_finding u) traced).flatMap (·.2)).Perm (traced.flatMap (·.2) ++ items) := by
    intro items
    induction items with
    | nil =>
      intro traced
      rw [List.append_nil]
      exact .refl _
    | cons item items ih =>
      intro traced
      refine (ih _).trans ?_
      rw [List.append_cons]
      exact (trace_finding_perm traced item).append_right items
  exact hfold (reported reviews) []

theorem traces_traced_groups : ∀ entry ∈ traced_groups u reviews, Traces entry.1 entry.2 :=
  foldl_invariant (I := fun traced : List (Group × List LensFinding) => ∀ entry ∈ traced, Traces entry.1 entry.2)
    (fun _ item _ h => traces_trace_finding h item) (by simp)

/-- The findings of the review are the merged groups, sorted beside what they have absorbed. -/
theorem absorption_fst : (reconcile u reviews).findings = (absorption u reviews).map (·.1) := by
  have hmerged : (groups u reviews).map Group.merged =
      ((traced_groups u reviews).map fun entry => (entry.1.merged, entry.2)).map (·.1) := by
    rw [← traced_groups_fst, List.map_map, List.map_map]
    rfl
  rw [reconcile, hmerged]
  symm
  apply List.map_insertionSort
  exact fun a _ b _ => Iff.rfl

theorem mem_absorption {entry : MergedFinding × List LensFinding} :
    entry ∈ absorption u reviews ↔ ∃ traced ∈ traced_groups u reviews, (traced.1.merged, traced.2) = entry := by
  rw [absorption, mem_sorted, List.mem_map]

theorem absorption_perm : ((absorption u reviews).flatMap (·.2)).Perm (reported reviews) := by
  have hsorted : (absorption u reviews).Perm ((traced_groups u reviews).map fun entry => (entry.1.merged, entry.2)) :=
    List.perm_insertionSort _ _
  refine (hsorted.flatMap_right _).trans ?_
  rw [List.flatMap_map]
  exact traced_groups_perm u reviews

/-- A review neither drops nor softens a finding if and only if in every merged finding the last words of the
lenses hold what has been said: some lens's last word is the most severe of all, and lenses whose last words
agree have never said anything else. -/
theorem reconcile_faithful_iff :
    FaithfulReview u reviews ↔ ∀ entry ∈ absorption u reviews, LastWordsHold entry.2 := by
  have hgroup : ∀ traced ∈ traced_groups u reviews, Faithful traced.2 traced.1.merged ↔ LastWordsHold traced.2 :=
    fun traced htraced => (traces_traced_groups u reviews traced htraced).faithful_iff
  constructor
  · intro hreview entry hentry
    obtain ⟨traced, htraced, rfl⟩ := (mem_absorption u reviews).1 hentry
    exact (hgroup traced htraced).1 (hreview.faithful _ hentry)
  · intro hhold
    refine ⟨absorption_fst u reviews, absorption_perm u reviews, ?_, ?_⟩
    · intro entry hentry
      obtain ⟨traced, htraced, rfl⟩ := (mem_absorption u reviews).1 hentry
      exact (hgroup traced htraced).2 (hhold _ hentry)
    · have htotal : Std.Total fun a b : MergedFinding =>
          decide (SEVERITY_RANK a.severity ≤ SEVERITY_RANK b.severity) = true :=
        ⟨fun a b => by simpa using le_total (SEVERITY_RANK a.severity) (SEVERITY_RANK b.severity)⟩
      have htrans : IsTrans MergedFinding fun a b =>
          decide (SEVERITY_RANK a.severity ≤ SEVERITY_RANK b.severity) = true :=
        ⟨fun a b c hab hbc => by simpa using Nat.le_trans (of_decide_eq_true hab) (of_decide_eq_true hbc)⟩
      exact (List.pairwise_insertionSort _ _).imp fun h => of_decide_eq_true h

end Review

section Softened

/-- One lens reports the same issue twice, first as a blocker and then as a note. -/
def second_thought : List PanelistReview :=
  [{ lens := "bug"
     review :=
      { verdict := .request_changes
        findings :=
          [{ severity := .blocker, finding := "race in cache write", evidence_ids := ["cache.py:42"] },
            { severity := .note, finding := "race in cache write", evidence_ids := ["cache.py:40"] }] } }]

/-- The review keeps the note. -/
theorem reconcile_softened : ¬ FaithfulReview .ascii second_thought := by
  intro hreview
  have hsoft : ∃ entry ∈ absorption .ascii second_thought, ∃ item ∈ entry.2,
      SEVERITY_RANK item.2.severity < SEVERITY_RANK entry.1.severity := by decide +kernel
  obtain ⟨entry, hentry, item, hitem, hless⟩ := hsoft
  exact absurd ((hreview.faithful entry hentry).severity item hitem) (Nat.not_le_of_lt hless)

end Softened

end AgenticKb.ReviewPanel

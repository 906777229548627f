import AgenticKb.Effects.LinkReferences

open AgenticKb.Lib

namespace AgenticKb

/-- A work item carries the number: it is its external id, or a digit run of that id or of its title. -/
structure Carries (u : Unicode) (item : LinkableArtifact) (number : String) : Prop where
  work_item : item.source_type ∈ WORK_ITEM_SOURCE_TYPES
  written : number ≠ ""
  number : (∃ id ∈ item.external_id, id ≠ "" ∧ (number = strip u id ∨ number ∈ runs u.is_digit id)) ∨
    number ∈ runs u.is_digit (item.title.getD "")

/-- The one work item each number stands for, among the rows at hand. -/
structure NumberTargets (u : Unicode) (artifacts : List LinkableArtifact) (target : String → Option LinkableArtifact) :
    Prop where
  carries : ∀ number item, target number = some item → item ∈ artifacts ∧ Carries u item number
  answered : ∀ number, (∃ item ∈ artifacts, Carries u item number) → (target number).isSome
  alone : ∀ number, ∀ item ∈ artifacts, Carries u item number →
    (∀ other ∈ artifacts, Carries u other number → other = item) → target number = some item

/-- The work-item links of some makers are those of the references they make, each to what its number stands for. -/
structure ReferenceLinks (target : String → Option LinkableArtifact) (makers : List LinkableArtifact)
    (references : LinkableArtifact → List Reference) (edge_type : LinkerEdgeType) (drafts : List LinkEdgeDraft) : Prop where
  sound : ∀ d ∈ drafts, ∀ matched, d.evidence = some (.work_item_ref matched) →
    ∃ maker ∈ makers, ∃ ref ∈ references maker, ref.matched = matched ∧
      ∃ item, target ref.key = some item ∧ item.artifact_id ≠ maker.artifact_id ∧
        d.key = (maker.artifact_id, item.artifact_id, edge_type.edge_type)
  complete : ∀ maker ∈ makers, ∀ ref ∈ references maker, ∀ item, target ref.key = some item →
    item.artifact_id ≠ maker.artifact_id →
      ∃ d ∈ drafts, d.key = (maker.artifact_id, item.artifact_id, edge_type.edge_type)

section Targets

variable {u : Unicode} {artifacts : List LinkableArtifact}

theorem is_work_item_iff {number : String} {item : LinkableArtifact} :
    is_work_item u number item = true ↔ Carries u item number := by
  have hkeys : (work_item_keys u item).contains number = true ↔ number ≠ "" ∧
      ((∃ id ∈ item.external_id, id ≠ "" ∧ (number = strip u id ∨ number ∈ runs u.is_digit id)) ∨
        number ∈ runs u.is_digit (item.title.getD "")) := by
    unfold work_item_keys
    cases hid : item.external_id with
    | none => simp [and_comm]
    | some id =>
      by_cases hempty : id = ""
      · simp [hempty, and_comm]
      · simp [hempty, and_comm, or_assoc]
  rw [is_work_item, Bool.and_eq_true, hkeys]
  constructor
  · rintro ⟨hsource, hwritten, hnumber⟩
    exact ⟨by simpa using hsource, hwritten, hnumber⟩
  · intro h
    exact ⟨by simpa using h.work_item, h.written, h.number⟩

theorem numberTargets_index (u : Unicode) (artifacts : List LinkableArtifact) :
    NumberTargets u artifacts (work_item_index u artifacts).get? := by
  constructor
  case carries =>
    intro number item hitem
    rw [get?_work_item_index] at hitem
    exact ⟨List.mem_of_find?_eq_some hitem, is_work_item_iff.1 (List.find?_some hitem)⟩
  case answered =>
    intro number ⟨item, hitem, hcarries⟩
    rw [get?_work_item_index]
    exact List.find?_isSome.2 ⟨item, hitem, is_work_item_iff.2 hcarries⟩
  case alone =>
    intro number item hitem hcarries halone
    rw [get?_work_item_index]
    have hsome : (artifacts.find? (is_work_item u number)).isSome :=
      List.find?_isSome.2 ⟨item, hitem, is_work_item_iff.2 hcarries⟩
    obtain ⟨found, hfound⟩ := Option.isSome_iff_exists.1 hsome
    rw [hfound, halone found (List.mem_of_find?_eq_some hfound) (is_work_item_iff.1 (List.find?_some hfound))]

/-- Only drafts of the matchers are added, and none that links an artifact to itself. -/
theorem of_mem_foldl_add_link {drafts acc : List LinkEdgeDraft} {d : LinkEdgeDraft} (h : d ∈ drafts.foldl add_link acc) :
    d ∈ acc ∨ d ∈ drafts ∧ d.from_artifact_id ≠ d.to_artifact_id := by
  induction drafts generalizing acc with
  | nil => exact .inl h
  | cons draft drafts ih =>
    rw [List.foldl_cons] at h
    cases ih h with
    | inr hrest => exact .inr ⟨List.mem_cons_of_mem _ hrest.1, hrest.2⟩
    | inl hacc =>
      unfold add_link at hacc
      split at hacc
      case isTrue => exact .inl hacc
      case isFalse hnew =>
        cases List.mem_append.1 hacc with
        | inl hold => exact .inl hold
        | inr hlast =>
          rw [List.mem_singleton.1 hlast]
          refine .inr ⟨List.mem_cons_self, fun hself => hnew ?_⟩
          rw [Bool.or_eq_true]
          exact .inr (beq_iff_eq.2 hself)

/-- The links of commits. -/
theorem referenceLinks_commits (u : Unicode) (artifacts : List LinkableArtifact) :
    ReferenceLinks (work_item_index u artifacts).get? (artifacts.filter fun a => a.artifact_type == COMMIT_ARTIFACT_TYPE)
      (fun commit => parse_work_item_references u (commit.body_text.getD "") commit.branch) .implements
      (find_cross_domain_links u artifacts) := by
  constructor
  case sound =>
    intro d hd matched hevidence
    cases of_mem_foldl_add_link hd with
    | inl hnone => cases hnone
    | inr hdraft =>
      obtain ⟨hmem, hself⟩ := hdraft
      obtain ⟨commit, hcommit, hmem⟩ := List.mem_flatMap.1 hmem
      simp only [commit_links, List.mem_append, List.mem_filterMap, Option.map_eq_some_iff] at hmem
      rcases hmem with (⟨ref, href, item, hitem, rfl⟩ | ⟨ref, -, item, -, rfl⟩) | ⟨path, -, item, -, rfl⟩
      · cases hevidence
        exact ⟨commit, hcommit, ref, href, rfl, item, hitem, fun heq => hself heq.symm, rfl⟩
      · cases hevidence
      · cases hevidence
  case complete =>
    intro commit hcommit ref href item hitem hself
    have hlink : (commit.artifact_id, item.artifact_id, EdgeType.implements) ∈
        (find_cross_domain_links u artifacts).map LinkEdgeDraft.key := by
      rw [mem_find_cross_domain_links, follows_flatMap]
      refine ⟨⟨commit, hcommit, work_item_reference u commit .implements ref, ?_, item, ?_, rfl⟩, fun heq => hself heq.symm⟩
      · exact List.mem_append_left _ (List.mem_map_of_mem href)
      · exact (get?_work_item_index ref.key).symm.trans hitem
    obtain ⟨d, hd, hkey⟩ := List.mem_map.1 hlink
    exact ⟨d, hd, hkey⟩

/-- The links of documents. -/
theorem referenceLinks_docs (u : Unicode) (docs artifacts : List LinkableArtifact) :
    ReferenceLinks (work_item_index u artifacts).get? docs
      (fun doc => parse_work_item_references u (doc.body_text.getD "") none) .mentions
      (find_doc_work_item_mentions u docs artifacts) := by
  constructor
  case sound =>
    intro d hd matched hevidence
    cases of_mem_foldl_add_link hd with
    | inl hnone => cases hnone
    | inr hdraft =>
      obtain ⟨hmem, hself⟩ := hdraft
      obtain ⟨doc, hdoc, hmem⟩ := List.mem_flatMap.1 hmem
      simp only [List.mem_filterMap, Option.map_eq_some_iff] at hmem
      obtain ⟨ref, href, item, hitem, rfl⟩ := hmem
      cases hevidence
      exact ⟨doc, hdoc, ref, href, rfl, item, hitem, fun heq => hself heq.symm, rfl⟩
  case complete =>
    intro doc hdoc ref href item hitem hself
    have hlink : (doc.artifact_id, item.artifact_id, EdgeType.mentions) ∈
        (find_doc_work_item_mentions u docs artifacts).map LinkEdgeDraft.key := by
      rw [find_doc_work_item_mentions, mem_foldl_add_link, List.map_flatMap, List.mem_flatMap]
      refine .inr ⟨⟨doc, hdoc, ?_⟩, fun heq => hself heq.symm⟩
      rw [List.mem_map]
      exact ⟨_, List.mem_filterMap.2 ⟨ref, href, Option.map_eq_some_iff.2 ⟨item, hitem, rfl⟩⟩, rfl⟩
    obtain ⟨d, hd, hkey⟩ := List.mem_map.1 hlink
    exact ⟨d, hd, hkey⟩

/-- A reference links to the one work item its number stands for: an item that carries the number, and the only one
there is where no other item carries it. -/
theorem references_link_to_carriers (u : Unicode) (artifacts : List LinkableArtifact) :
    ∃ target, NumberTargets u artifacts target ∧
      ReferenceLinks target (artifacts.filter fun a => a.artifact_type == COMMIT_ARTIFACT_TYPE)
        (fun commit => parse_work_item_references u (commit.body_text.getD "") commit.branch) .implements
        (find_cross_domain_links u artifacts) ∧
      ∀ docs, ReferenceLinks target docs (fun doc => parse_work_item_references u (doc.body_text.getD "") none) .mentions
        (find_doc_work_item_mentions u docs artifacts) :=
  ⟨(work_item_index u artifacts).get?, numberTargets_index u artifacts, referenceLinks_commits u artifacts,
    fun docs => referenceLinks_docs u docs artifacts⟩

end Targets

/-- A commit for item 12, and beside that item one whose title holds the number. -/
def phase_items : List LinkableArtifact :=
  [{ artifact_id := 1, artifact_type := .commit, title := none, body_text := some "AB#12", source_type := .git_metadata },
   { artifact_id := 2, artifact_type := .chunk, title := some "Phase 12", body_text := none, source_type := .ado_card
     external_id := some "7" },
   { artifact_id := 3, artifact_type := .chunk, title := some "Login", body_text := none, source_type := .ado_card
     external_id := some "12" }]

/-- The title is reached by the number, and shadows the item whose id it is. -/
theorem phase_items_misread : parse_work_item_references .ascii "AB#12" none = [⟨"12", "AB#12"⟩] ∧
    ¬ ∀ item ∈ phase_items, item.source_type ∈ WORK_ITEM_SOURCE_TYPES →
      ((∃ d ∈ find_cross_domain_links .ascii phase_items, d.key = (1, item.artifact_id, .implements)) ↔
        item.external_id = some "12") := by
  decide +kernel

end AgenticKb

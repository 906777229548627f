import AgenticKb.Application.BuildRunner

open AgenticKb.Lib

namespace AgenticKb

/-- The tables that say what the registry serves agree; caches, candidates and run rows may not. -/
structure SameCore (r r' : Registry) : Prop where
  source_items : r'.source_items = r.source_items
  artifacts : r'.artifacts = r.artifacts
  edges : r'.edges = r.edges
  build_seq : r'.build_seq = r.build_seq
  uuids : r'.uuids = r.uuids

theorem SameCore.refl (r : Registry) : SameCore r r := ⟨rfl, rfl, rfl, rfl, rfl⟩

theorem SameCore.trans {r r' r'' : Registry} (h : SameCore r r') (h' : SameCore r' r'') :
    SameCore r r'' :=
  ⟨h'.source_items.trans h.source_items, h'.artifacts.trans h.artifacts, h'.edges.trans h.edges,
    h'.build_seq.trans h.build_seq, h'.uuids.trans h.uuids⟩

theorem mem_joined {r : Registry} {entry : KnowledgeArtifact × SourceItem} (h : entry ∈ r.joined) :
    entry.1 ∈ r.artifacts ∧ entry.2 ∈ r.source_items ∧ entry.2.source_id = entry.1.source_id := by
  simp only [Registry.joined, List.mem_filterMap, Option.map_eq_some_iff] at h
  obtain ⟨a, ha, s, hs, rfl⟩ := h
  exact ⟨ha, List.mem_of_find?_eq_some hs, by simpa using List.find?_some hs⟩

/-- The unique key of a source row. -/
def SourceItem.key (s : SourceItem) : SourceType × String := (s.source_type, s.source_uri)

/-- `id` is one of the first `n` random ids. -/
def Drawn (p : Platform) (n : Nat) (id : Uuid) : Prop := ∃ i < n, p.gen_random_uuid i = id

theorem Drawn.mono {p : Platform} {n m : Nat} {id : Uuid} (h : Drawn p n id) (hle : n ≤ m) :
    Drawn p m id := by
  obtain ⟨i, hi, heq⟩ := h
  exact ⟨i, by omega, heq⟩

/-- The constraints every registry meets: its keys are unique, its ids have been drawn, and no row
carries the stamp of a build that has not started. -/
structure WellFormed (p : Platform) (r : Registry) : Prop where
  source_keys : (r.source_items.map (·.key)).Nodup
  source_ids : (r.source_items.map (·.source_id)).Nodup
  source_ids_drawn : ∀ s ∈ r.source_items, Drawn p r.uuids s.source_id
  artifact_ids : (r.artifacts.map (·.artifact_id)).Nodup
  artifact_ids_drawn : ∀ a ∈ r.artifacts, Drawn p r.uuids a.artifact_id
  artifacts_stamped : ∀ a ∈ r.artifacts, a.StampedBy r.build_seq
  edges_stamped : ∀ e ∈ r.edges, e.StampedBy r.build_seq

theorem wellFormed_empty (p : Platform) : WellFormed p Registry.empty := by
  constructor <;> simp [Registry.empty]

namespace WellFormed

variable {p : Platform} {r r' : Registry}

theorem of_sameCore (h : WellFormed p r) (hsame : SameCore r r') : WellFormed p r' := by
  obtain ⟨hs, ha, he, hb, hu⟩ := hsame
  constructor
  · rw [hs]
    exact h.source_keys
  · rw [hs]
    exact h.source_ids
  · rw [hs, hu]
    exact h.source_ids_drawn
  · rw [ha]
    exact h.artifact_ids
  · rw [ha, hu]
    exact h.artifact_ids_drawn
  · rw [ha, hb]
    exact h.artifacts_stamped
  · rw [he, hb]
    exact h.edges_stamped

/-- Two artifacts of one id are the same row. -/
theorem artifact_eq (h : WellFormed p r) {a a' : KnowledgeArtifact} (ha : a ∈ r.artifacts)
    (ha' : a' ∈ r.artifacts) (hid : a.artifact_id = a'.artifact_id) : a = a' :=
  eq_of_key_eq h.artifact_ids ha ha' hid

theorem source_eq (h : WellFormed p r) {s s' : SourceItem} (hs : s ∈ r.source_items)
    (hs' : s' ∈ r.source_items) (hid : s.source_id = s'.source_id) : s = s' :=
  eq_of_key_eq h.source_ids hs hs' hid

theorem source_eq_of_key (h : WellFormed p r) {s s' : SourceItem} (hs : s ∈ r.source_items)
    (hs' : s' ∈ r.source_items) (hkey : s.key = s'.key) : s = s' :=
  eq_of_key_eq h.source_keys hs hs' hkey

/-- Writing the source rows in place keeps their ids and keys. -/
theorem set_sources {t : List SourceItem} (h : WellFormed p r)
    (hstep : TableStep (fun s s' : SourceItem => s'.source_id = s.source_id ∧ s'.key = s.key)
      (fun _ => False) r.source_items t) :
    WellFormed p { r with source_items := t } := by
  obtain ⟨added, hkeys, hadded⟩ := hstep.map_key SourceItem.key fun _ _ hk => hk.2
  obtain ⟨added', hids, hadded'⟩ := hstep.map_key SourceItem.source_id fun _ _ hk => hk.1
  obtain rfl : added = [] := List.eq_nil_iff_forall_not_mem.2 fun s hs => hadded s hs
  obtain rfl : added' = [] := List.eq_nil_iff_forall_not_mem.2 fun s hs => hadded' s hs
  refine { h with source_keys := ?_, source_ids := ?_, source_ids_drawn := ?_ }
  · simpa [hkeys] using h.source_keys
  · simpa [hids] using h.source_ids
  · exact hstep.forall_mem (fun s s' hs hk => hk.1 ▸ hs) (fun _ hf => hf.elim) h.source_ids_drawn

/-- Writing the artifacts in place keeps their ids. -/
theorem set_artifacts {t : List KnowledgeArtifact} (h : WellFormed p r)
    (hstep : TableStep (fun a a' : KnowledgeArtifact => a'.artifact_id = a.artifact_id ∧
      a.Restamped r.build_seq a'.toLifespan) (fun _ => False) r.artifacts t) :
    WellFormed p { r with artifacts := t } := by
  obtain ⟨added, hids, hadded⟩ :=
    hstep.map_key KnowledgeArtifact.artifact_id fun _ _ hk => hk.1
  obtain rfl : added = [] := List.eq_nil_iff_forall_not_mem.2 fun a ha => hadded a ha
  refine { h with artifact_ids := ?_, artifact_ids_drawn := ?_, artifacts_stamped := ?_ }
  · simpa [hids] using h.artifact_ids
  · exact hstep.forall_mem (fun a a' ha hk => hk.1 ▸ ha) (fun _ hf => hf.elim) h.artifact_ids_drawn
  · exact hstep.forall_mem (fun a a' ha hk => hk.2.stampedBy ha) (fun _ hf => hf.elim)
      h.artifacts_stamped

/-- Edges carry no unique id that any pass relies on: any edge write of this build will do. -/
theorem set_edges {t : List KnowledgeEdge} (h : WellFormed p r)
    (hstep : TableStep (fun e e' : KnowledgeEdge => e.Restamped r.build_seq e'.toLifespan)
      (fun e => e.IntroducedBy r.build_seq) r.edges t) :
    WellFormed p { r with edges := t } :=
  { h with
    edges_stamped :=
      hstep.forall_mem (fun _ _ he hk => hk.stampedBy he) (fun _ he => he.stampedBy) h.edges_stamped }

theorem set_uuids {n : Nat} (h : WellFormed p r) (hle : r.uuids ≤ n) :
    WellFormed p { r with uuids := n } :=
  { h with
    source_ids_drawn := fun s hs => (h.source_ids_drawn s hs).mono hle
    artifact_ids_drawn := fun a ha => (h.artifact_ids_drawn a ha).mono hle }

/-- The next build may start. -/
theorem set_build_seq {n : Nat} (h : WellFormed p r) (hle : r.build_seq ≤ n) :
    WellFormed p { r with build_seq := n } :=
  { h with
    artifacts_stamped := fun a ha => (h.artifacts_stamped a ha).mono hle
    edges_stamped := fun e he => (h.edges_stamped e he).mono hle }

theorem add_edge (h : WellFormed p r) {row : Uuid → KnowledgeEdge}
    (hrow : ∀ id, (row id).IntroducedBy r.build_seq) : WellFormed p (r.add_edge p row) := by
  have hedges := h.set_edges (t := r.edges ++ [row (r.fresh p)])
    (TableStep.of_append (fun e _ => .refl _ _) (by simpa using hrow _))
  exact hedges.set_uuids (n := r.uuids + 1) (Nat.le_succ _)

end WellFormed

/-- What adding rows does: they come after the others, under the ids returned, which are the next
ones to be drawn. -/
theorem add_artifacts_spec (p : Platform) (r : Registry) {rows : List (Uuid → KnowledgeArtifact)}
    (hrow : ∀ row ∈ rows, ∀ id, (row id).artifact_id = id) :
    ∃ added, r.add_artifacts p rows =
        ({ r with artifacts := r.artifacts ++ added, uuids := r.uuids + rows.length },
          added.map (·.artifact_id)) ∧
      added.map (·.artifact_id) = (List.range rows.length).map (fun i => p.gen_random_uuid (r.uuids + i)) ∧
      ∀ a ∈ added, ∃ row ∈ rows, ∃ id, a = row id := by
  set ids := (List.range rows.length).map fun i => p.gen_random_uuid (r.uuids + i) with hids
  have hlen : rows.length = ids.length := by simp [hids]
  have hadded : ((rows.zip ids).map fun entry => entry.1 entry.2).map (·.artifact_id) = ids := by
    have hsnd : ∀ entry ∈ rows.zip ids, (entry.1 entry.2).artifact_id = entry.2 :=
      fun entry hmem => hrow entry.1 (List.of_mem_zip hmem).1 entry.2
    rw [List.map_map]
    exact (List.map_congr_left hsnd).trans (List.map_snd_zip hlen.ge)
  refine ⟨(rows.zip ids).map fun entry => entry.1 entry.2, ?_, hadded, ?_⟩
  · rw [hadded]
    rfl
  · intro a ha
    obtain ⟨⟨row, id⟩, hmem, rfl⟩ := List.mem_map.1 ha
    exact ⟨row, (List.of_mem_zip hmem).1, id, rfl⟩

section Fresh

variable {p : Platform} {r : Registry}

/-- The next random ids are new, as random ids never repeat. -/
theorem WellFormed.add_artifacts (h : WellFormed p r) (hinj : Function.Injective p.gen_random_uuid)
    {rows : List (Uuid → KnowledgeArtifact)} (hrow : ∀ row ∈ rows, ∀ id, (row id).artifact_id = id)
    (hnew : ∀ row ∈ rows, ∀ id, (row id).IntroducedBy r.build_seq) :
    WellFormed p (r.add_artifacts p rows).1 := by
  obtain ⟨added, heq, hids, hmem⟩ := add_artifacts_spec p r hrow
  rw [heq]
  refine { h.set_uuids (n := r.uuids + rows.length) (by omega) with
    artifact_ids := ?_, artifact_ids_drawn := ?_, artifacts_stamped := ?_ }
  · rw [List.map_append, hids, List.nodup_append]
    refine ⟨h.artifact_ids, ?_, ?_⟩
    · exact List.nodup_range.map fun i j hij => by simpa using hinj hij
    · intro id hid id' hid' heq'
      obtain ⟨a, ha, rfl⟩ := List.mem_map.1 hid
      obtain ⟨i, -, rfl⟩ := List.mem_map.1 hid'
      obtain ⟨j, hj, hjeq⟩ := h.artifact_ids_drawn a ha
      have hji : j = r.uuids + i := hinj (hjeq.trans heq')
      omega
  · intro a ha
    rcases List.mem_append.1 ha with ha | ha
    · exact (h.artifact_ids_drawn a ha).mono (by simp)
    · have hid : a.artifact_id ∈ added.map (·.artifact_id) := List.mem_map_of_mem ha
      rw [hids] at hid
      obtain ⟨i, hi, hieq⟩ := List.mem_map.1 hid
      exact ⟨r.uuids + i, by simpa using List.mem_range.1 hi, hieq⟩
  · intro a ha
    rcases List.mem_append.1 ha with ha | ha
    · exact h.artifacts_stamped a ha
    · obtain ⟨row, hrow', id, rfl⟩ := hmem a ha
      exact (hnew row hrow' id).stampedBy

/-- A fresh id belongs to no source row yet. -/
theorem WellFormed.fresh_not_source (h : WellFormed p r)
    (hinj : Function.Injective p.gen_random_uuid) : ∀ s ∈ r.source_items, s.source_id ≠ r.fresh p := by
  intro s hs heq
  obtain ⟨i, hi, hid⟩ := h.source_ids_drawn s hs
  have hfresh : i = r.uuids := hinj (hid.trans heq)
  omega

end Fresh

end AgenticKb

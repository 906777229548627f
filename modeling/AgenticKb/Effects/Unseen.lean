import AgenticKb.Effects.Completed

open AgenticKb.Lib

namespace AgenticKb

/-! What a completed build does to the sources it has not seen: the live ones leave, and what hangs on the others
stays. -/

/-- An artifact extracted from one of these sources; an alias only hangs on one. -/
def ExtractedFrom (of : SourceItem → Prop) (r : Registry) (a : KnowledgeArtifact) : Prop :=
  a.artifact_type ≠ .alias_reference ∧ ∃ row ∈ r.source_items, of row ∧ a.source_id = row.source_id

instance (of : SourceItem → Prop) [DecidablePred of] (r : Registry) (a : KnowledgeArtifact) : Decidable (ExtractedFrom of r a) :=
  inferInstanceAs (Decidable (_ ∧ ∃ row ∈ r.source_items, _ ∧ _))

/-- An edge the extractor drew between two such artifacts. -/
def DrawnBetween (of : SourceItem → Prop) (r : Registry) (e : KnowledgeEdge) : Prop :=
  e.source = some .graphify ∧
    (∃ a ∈ r.artifacts, a.artifact_id = e.from_artifact_id ∧ ExtractedFrom of r a) ∧
    ∃ a ∈ r.artifacts, a.artifact_id = e.to_artifact_id ∧ ExtractedFrom of r a

instance (of : SourceItem → Prop) [DecidablePred of] (r : Registry) (e : KnowledgeEdge) : Decidable (DrawnBetween of r e) :=
  inferInstanceAs (Decidable (_ ∧ (∃ a ∈ r.artifacts, _ ∧ _) ∧ ∃ a ∈ r.artifacts, _ ∧ _))

/-- A build keeps what the one before it knew of these sources: none of them is tombstoned, and every artifact
and edge that was a member still is one. -/
structure KnowledgeKept (of : SourceItem → Prop) (r r' : Registry) : Prop where
  sources : ∀ row ∈ r.source_items, row.is_deleted = false → of row →
    ∃ row' ∈ r'.source_items, row'.source_id = row.source_id ∧ row'.is_deleted = false
  artifacts : ∀ a ∈ r.artifacts, ExtractedFrom of r a → a.MemberAt r.build_seq →
    ∃ a' ∈ r'.artifacts, a'.artifact_id = a.artifact_id ∧ a'.MemberAt r'.build_seq
  edges : ∀ e ∈ r.edges, DrawnBetween of r e → e.MemberAt r.build_seq →
    ∃ e' ∈ r'.edges, e'.edge_id = e.edge_id ∧ e'.MemberAt r'.build_seq

instance (of : SourceItem → Prop) [DecidablePred of] (r r' : Registry) : Decidable (KnowledgeKept of r r') :=
  decidable_of_iff ((∀ row ∈ r.source_items, _ → _ → ∃ row' ∈ r'.source_items, _ ∧ _) ∧
    (∀ a ∈ r.artifacts, _ → _ → ∃ a' ∈ r'.artifacts, _ ∧ _) ∧
    ∀ e ∈ r.edges, _ → _ → ∃ e' ∈ r'.edges, _ ∧ _)
    ⟨fun h => ⟨h.1, h.2.1, h.2.2⟩, fun h => ⟨h.sources, h.artifacts, h.edges⟩⟩

/-- The build neither touches nor advances the source of this row. -/
structure Unseen (p : Platform) (r : Registry) (b : Build) (row : SourceItem) : Prop where
  prose : ∀ f ∈ b.turns p, is_code_file f = false → f.key ≠ row.key
  units : UnitsRecorded b (fun f => f.key ≠ row.key) (source_loop p b (start_run p r b.kb_version))

section Unseen

variable {p : Platform} {r : Registry} {b : Build}

/-- The source loop only adds artifacts and edges. -/
theorem mem_sources_current (hwf : WellFormed p r) (hinj : Function.Injective p.gen_random_uuid) :
    (∀ a ∈ r.artifacts, a ∈ (run p cached_generation r b).sources.current.artifacts) ∧
      ∀ e ∈ r.edges, e ∈ (run p cached_generation r b).sources.current.edges := by
  have rule : LoopRule p b (r.build_seq + 1) (fun _ _ => True) (fun _ _ => True) fun r' _ =>
      (∀ a ∈ r.artifacts, a ∈ r'.artifacts) ∧ ∀ e ∈ r.edges, e ∈ r'.edges := by
    constructor
    · intro mid r' changed htouch h
      rwa [htouch.artifacts, htouch.edges]
    · intro s r' fetched id added _ h _ _ _ _ hprocessed _
      rw [hprocessed.artifacts, hprocessed.edges]
      exact ⟨fun a ha => List.mem_append_left _ (h.1 a ha), h.2⟩
    · intro s s' entry result rows added links _ _ _ _ h _ _ hw
      rw [hw.artifacts, hw.edges]
      exact ⟨fun a ha => List.mem_append_left _ (h.1 a ha), fun e he => List.mem_append_left _ (h.2 e he)⟩
  exact (run_rule_of_any rule hwf hinj ⟨fun _ h => h, fun _ h => h⟩).current

/-- No live row stands under this id, and the loop has not changed the source. -/
def Idle (s : SourceLoop) (id : Uuid) : Prop :=
  id ∉ s.changed ∧ ∀ row ∈ s.current.source_items, row.source_id = id → row.is_deleted = true

theorem Idle.not_vanished {s : SourceLoop} {id : Uuid} (h : Idle s id) (started_at : Timestamp) :
    id ∉ s.vanished started_at := by
  intro hmem
  obtain ⟨row, hrow, hid⟩ := List.mem_map.1 hmem
  rw [List.mem_filter] at hrow
  have hdeleted := h.2 row hrow.1 hid
  simp [hdeleted] at hrow

/-- What hangs on an idle source outlasts a completed build: its artifacts … -/
theorem idle_artifact_kept (hwf : WellFormed p r) (hinj : Function.Injective p.gen_random_uuid)
    (hdone : (run p cached_generation r b).finalized.isSome = true) {a : KnowledgeArtifact}
    (ha : a ∈ r.artifacts) (hother : a.artifact_type ≠ .alias_reference) (hlive : a.Live)
    (hidle : Idle (run p cached_generation r b).sources a.source_id) :
    ∃ a' ∈ (next p cached_generation r b).artifacts, a'.artifact_id = a.artifact_id ∧ a'.Live := by
  have hcurrent := (mem_sources_current (b := b) hwf hinj).1 a ha
  have hwf' := (sourcesGood_run (b := b) hwf hinj).current_wellFormed
  have hvanished := hidle.not_vanished r.now
  obtain ⟨a', ha', hk⟩ := (completes_run hwf hinj hdone).artifacts_to a hcurrent hother
  refine ⟨a', ha', hk.same.artifact_id, hk.live_iff.2 ⟨hlive, ?_⟩⟩
  rintro (⟨rename, hrename, hold⟩ | hgone | hsuperseded)
  · obtain ⟨old, hmem, -, hid, hsource⟩ := (isRename_of_mem hrename).old
    have hsame := hwf'.artifact_eq hmem hcurrent (hid.trans hold.symm)
    exact hvanished (hsame ▸ hsource ▸ (isRename_of_mem hrename).vanished)
  · exact hvanished (List.mem_of_mem_filter hgone)
  · exact hidle.1 hsuperseded.1

/-- … and the code edges between them. -/
theorem idle_edge_kept (hwf : WellFormed p r) (hinj : Function.Injective p.gen_random_uuid)
    (hdone : (run p cached_generation r b).finalized.isSome = true) {e : KnowledgeEdge} (he : e ∈ r.edges)
    (hsource : e.source = some .graphify) {a a' : KnowledgeArtifact} (ha : a ∈ r.artifacts)
    (hfrom : a.artifact_id = e.from_artifact_id) (ha' : a' ∈ r.artifacts) (hto : a'.artifact_id = e.to_artifact_id)
    (hidle : Idle (run p cached_generation r b).sources a.source_id)
    (hidle' : Idle (run p cached_generation r b).sources a'.source_id) :
    e ∈ (next p cached_generation r b).edges := by
  obtain ⟨hartifacts, hedges⟩ := mem_sources_current (b := b) hwf hinj
  have hwf' := (sourcesGood_run (b := b) hwf hinj).current_wellFormed
  refine (mem_code_edges.1 ((completes_run hwf hinj hdone).edges_to e (mem_code_edges.2 ⟨hedges e he, hsource⟩) ?_)).1
  intro end_row hend htouches
  have hends : end_row.artifact_id = e.from_artifact_id ∨ end_row.artifact_id = e.to_artifact_id := by
    simp only [touches, Bool.or_eq_true, List.contains_iff_mem, List.mem_singleton] at htouches
    exact htouches.imp Eq.symm Eq.symm
  cases hends with
  | inl hid =>
    rw [hwf'.artifact_eq hend (hartifacts a ha) (hid.trans hfrom.symm)]
    exact ⟨hidle.not_vanished r.now, fun hchanged => absurd hchanged hidle.1⟩
  | inr hid =>
    rw [hwf'.artifact_eq hend (hartifacts a' ha') (hid.trans hto.symm)]
    exact ⟨hidle'.not_vanished r.now, fun hchanged => absurd hchanged hidle'.1⟩

/-- A build that does not look at some sources keeps what was known of them exactly when none of them was live. -/
theorem knowledgeKept_iff (hwf : WellFormed p r) (hinj : Function.Injective p.gen_random_uuid)
    (hrecorded : RecordedBefore r) (hdone : (run p cached_generation r b).finalized.isSome = true)
    {of : SourceItem → Prop} (hunseen : ∀ row ∈ r.source_items, of row → Unseen p r b row) :
    KnowledgeKept of r (next p cached_generation r b) ↔
      ∀ row ∈ r.source_items, of row → row.is_deleted = true := by
  obtain ⟨hwf', hseq⟩ := wellFormed_next (b := b) hwf hinj
  constructor
  · intro hkept row hrow hof
    by_contra hlive
    rw [Bool.not_eq_true] at hlive
    have hgone := unrecorded_row_tombstoned hwf hinj hrecorded hrow hlive (hunseen row hrow hof).prose
      (hunseen row hrow hof).units hdone
    obtain ⟨row', hrow', hid, hlive'⟩ := hkept.sources row hrow hlive hof
    rw [hwf'.source_eq hrow' hgone hid] at hlive'
    simp at hlive'
  · intro hdeleted
    have hidle : ∀ row ∈ r.source_items, of row → Idle (run p cached_generation r b).sources row.source_id := by
      intro row hrow hof
      have hloop := rowsHold_run (rowRule_unrecorded hinj row) hwf hinj hrow (hunseen row hrow hof).prose
        (hunseen row hrow hof).units
      refine ⟨fun hid => hloop.changed _ hid rfl, fun row' hrow' hid => ?_⟩
      have hgood := sourcesGood_run (b := b) hwf hinj
      rw [hgood.current_wellFormed.source_eq hrow' hloop.current hid]
      exact hdeleted row hrow hof
    have hmember : ∀ l : Lifespan, l.StampedBy r.build_seq → l.MemberAt r.build_seq → l.Live := fun l hl hm =>
      hl.memberAt_iff_live.1 hm
    constructor
    · intro row hrow hlive hof
      rw [hdeleted row hrow hof] at hlive
      simp at hlive
    · rintro a ha ⟨hother, row, hrow, hof, hid⟩ hmem
      obtain ⟨a', ha', hid', hlive'⟩ := idle_artifact_kept hwf hinj hdone ha hother
        (hmember _ (hwf.artifacts_stamped a ha) hmem) (hid ▸ hidle row hrow hof)
      exact ⟨a', ha', hid', (hwf'.artifacts_stamped a' ha').memberAt_iff_live.2 hlive'⟩
    · rintro e he ⟨hsource, ⟨a, ha, hfrom, -, row, hrow, hof, hid⟩, a', ha', hto, -, row', hrow', hof', hid'⟩ hmem
      have hkept := idle_edge_kept hwf hinj hdone he hsource ha hfrom ha' hto (hid ▸ hidle row hrow hof)
        (hid' ▸ hidle row' hrow' hof')
      have hlive := hmember _ (hwf.edges_stamped e he) hmem
      exact ⟨e, hkept, rfl, (hwf'.edges_stamped e hkept).memberAt_iff_live.2 hlive⟩

end Unseen

end AgenticKb

import AgenticKb.Effects.Rows
import AgenticKb.Effects.CodeEdges

open AgenticKb.Lib

namespace AgenticKb

/-! A completed build, seen from what its source loop left: the sweeps of its last transaction, and nothing else,
decide what becomes of the sources, the artifacts that are no aliases and the code edges. -/

/-- The sources that vanished, as the sweep of a build will find them. -/
def SourceLoop.vanished (s : SourceLoop) (build_started_at : Timestamp) : List Uuid :=
  vanished_live_sources s.current s.seen build_started_at

/-- The renames that sweep will detect. -/
def SourceLoop.renames (s : SourceLoop) (build_started_at : Timestamp) : List Rename :=
  detected_renames s.current (s.vanished build_started_at) s.current.build_seq

section Congr

variable {r r' : Registry} {n : Nat} {vanished seen changed : List Uuid} {a a' : KnowledgeArtifact}

theorem vanished_live_sources_congr (hs : r'.source_items = r.source_items) (started_at : Timestamp) :
    vanished_live_sources r' seen started_at = vanished_live_sources r seen started_at := by
  simp only [vanished_live_sources, hs]

theorem detected_renames_congr (ha : r'.artifacts = r.artifacts) :
    detected_renames r' vanished n = detected_renames r vanished n := by
  simp only [detected_renames, old_by_hash, ha]

theorem tombstoned_sources_congr (ha : r'.artifacts = r.artifacts) :
    tombstoned_sources r' n vanished = tombstoned_sources r n vanished := by
  simp only [tombstoned_sources, swept_sources, detected_renames_congr ha]

theorem swept_congr (ha : r'.artifacts = r.artifacts) :
    Swept r' n vanished changed a ↔ Swept r n vanished changed a := by
  simp only [Swept, swept_sources, detected_renames_congr ha]

theorem InvalidatedRow.congr (h : InvalidatedRow r' vanished seen changed a a') (ha : r'.artifacts = r.artifacts)
    (hs : r'.source_items = r.source_items) (hn : r'.build_seq = r.build_seq) :
    InvalidatedRow r vanished seen changed a a' where
  same := h.same
  evolves := hn ▸ h.evolves
  live_iff := by
    rw [h.live_iff, hn, swept_congr ha]
  acl := hs ▸ h.acl

end Congr

/-- What the last transaction of a build makes of what its source loop left. -/
structure Completes (s : SourceLoop) (started_at : Timestamp) (r' : Registry) : Prop where
  source_items : TableStep (Tombstoned (tombstoned_sources s.current s.current.build_seq (s.vanished started_at)))
    (fun _ => False) s.current.source_items r'.source_items
  artifacts_from : ∀ a' ∈ r'.artifacts, a'.artifact_type ≠ .alias_reference →
    ∃ a ∈ s.current.artifacts, InvalidatedRow s.current (s.vanished started_at) s.seen s.changed a a'
  artifacts_to : ∀ a ∈ s.current.artifacts, a.artifact_type ≠ .alias_reference →
    ∃ a' ∈ r'.artifacts, InvalidatedRow s.current (s.vanished started_at) s.seen s.changed a a'
  /-- A live code edge touches no swept artifact, unless it comes from one that touched a renamed one. -/
  edges_from : ∀ e ∈ code_edges r', e.Live →
    (∃ e₀ ∈ code_edges s.current, e₀.Live ∧ ∃ rename ∈ s.renames started_at,
      touches [rename.old_artifact_id] e₀ = true) ∨
    (e ∈ code_edges s.current ∧ ∀ a ∈ s.current.artifacts, a.Live → touches [a.artifact_id] e = true →
      ¬ Swept s.current s.current.build_seq (s.vanished started_at) s.changed a)
  edges_to : ∀ e ∈ code_edges s.current, (∀ a ∈ s.current.artifacts, touches [a.artifact_id] e = true →
    a.source_id ∉ s.vanished started_at ∧ (a.source_id ∈ s.changed → s.current.build_seq ≤ a.valid_from_seq)) →
      e ∈ code_edges r'

theorem completes_run {p : Platform} {r : Registry} {b : Build} (hwf : WellFormed p r)
    (hinj : Function.Injective p.gen_random_uuid)
    (hdone : (run p cached_generation r b).finalized.isSome = true) :
    Completes (run p cached_generation r b).sources r.now (next p cached_generation r b) := by
  have hgood := sourcesGood_run (b := b) hwf hinj
  cases run_end p r b with
  | failed hsources hpasses => simp [hpasses] at hdone
  | completed passes hsources hpasses hfinal hsame =>
    unfold next
    generalize run p cached_generation r b = outcome at hgood hfinal hsame
    have hcurrent := hgood.current_wellFormed
    have hlinked := hfinal.onlyEdges_judged
    have hjudged := hlinked.wellFormed hcurrent
    have hinvalidates := hfinal.invalidates hcurrent
    have haliases := hfinal.onlyAliases_mined hcurrent hinj
    have hvanished : vanished_live_sources passes.judged outcome.sources.seen r.now =
        outcome.sources.vanished r.now := vanished_live_sources_congr hlinked.source_items r.now
    rw [hvanished] at hinvalidates
    have hcode : ∀ e, e ∈ code_edges outcome.registry ↔ e ∈ passes.invalidated.edges ∧ e.source = some .graphify := by
      intro e
      rw [← mem_code_edges, ← hfinal.code_edges_mined hcurrent hinj]
      exact mem_code_edges.trans (by rw [mem_code_edges, hsame.edges])
    have hbefore : ∀ e, e ∈ code_edges outcome.sources.current ↔
        e ∈ passes.judged.edges ∧ e.source = some .graphify := by
      intro e
      rw [← mem_code_edges, hfinal.code_edges_judged]
    have hpass := hfinal.invalidated
    constructor
    · have hstep := hinvalidates.source_items
      rwa [tombstoned_sources_congr hlinked.artifacts, hlinked.build_seq, hlinked.source_items,
        ← haliases.source_items, ← hsame.source_items] at hstep
    · intro a' ha' hother
      rw [hsame.artifacts, haliases.mem_iff hother] at ha'
      obtain ⟨a, ha, hk⟩ := (hinvalidates.artifacts.origin ha').resolve_right False.elim
      exact ⟨a, hlinked.artifacts ▸ ha, hk.congr hlinked.artifacts hlinked.source_items hlinked.build_seq⟩
    · intro a ha hother
      obtain ⟨a', ha', hk⟩ := hinvalidates.artifacts.successor (hlinked.artifacts ▸ ha)
      refine ⟨a', ?_, hk.congr hlinked.artifacts hlinked.source_items hlinked.build_seq⟩
      rw [hsame.artifacts, haliases.mem_iff (hk.same.artifact_type ▸ hother)]
      exact ha'
    · intro e he hlive
      obtain ⟨hmem, hsource⟩ := (hcode e).1 he
      rw [← hlinked.build_seq] at hpass
      have hcases := live_edge_of_run_invalidation_pass hjudged hpass hmem hlive
      rw [hvanished, detected_renames_congr hlinked.artifacts, hlinked.build_seq, hlinked.artifacts] at hcases
      cases hcases with
      | inl hrenamed =>
        obtain ⟨e₀, he₀, hlive₀, hsource₀, hrename⟩ := hrenamed
        exact .inl ⟨e₀, (hbefore e₀).2 ⟨he₀, hsource₀.trans hsource⟩, hlive₀, hrename⟩
      | inr hkept =>
        refine .inr ⟨(hbefore e).2 ⟨hkept.1, hsource⟩, fun a ha halive htouches hout => ?_⟩
        exact hkept.2 a ha halive htouches ((swept_congr hlinked.artifacts).2 hout)
    · intro e he hends
      obtain ⟨hmem, hsource⟩ := (hbefore e).1 he
      refine (hcode e).2 ⟨?_, hsource⟩
      apply mem_edges_run_invalidation_pass hlinked.build_seq hpass hmem
      rw [hvanished, hlinked.artifacts]
      exact hends

end AgenticKb

import AgenticKb.Effects.Build

open AgenticKb.Lib

namespace AgenticKb

/-! The edges of the code graph: the extractor's own pass appends them, the sweeps retire those that touch a
swept artifact, and no other pass of a build writes to one of them. -/

/-- The edges the code extractor wrote. -/
def code_edges (r : Registry) : List KnowledgeEdge := r.edges.filter fun e => e.source == some .graphify

theorem mem_code_edges {r : Registry} {e : KnowledgeEdge} :
    e ∈ code_edges r ↔ e ∈ r.edges ∧ e.source = some .graphify := by
  simp [code_edges]

section Frames

variable {p : Platform} {b : Build} {r r' : Registry} {n : Nat} {kb_version : String}

/-- A step that keeps the source of every edge and writes only edges of others. -/
private theorem code_edges_of_step {Keep : KnowledgeEdge → KnowledgeEdge → Prop} {Add : KnowledgeEdge → Prop}
    (hstep : TableStep Keep Add r.edges r'.edges)
    (hkeep : ∀ e e', Keep e e' → e'.source = e.source ∧ (e.source = some .graphify → e' = e))
    (hadd : ∀ e, Add e → e.source ≠ some .graphify) : code_edges r' = code_edges r := by
  unfold code_edges
  apply hstep.filter_eq
  · intro e e' hk
    obtain ⟨hsource, hsame⟩ := hkeep e e' hk
    exact ⟨by rw [hsource], fun hp => hsame (by simpa using hp)⟩
  · intro e ha
    simpa using hadd e ha

theorem code_edges_retire_edges {stale : KnowledgeEdge → Bool}
    (hstale : ∀ e, e.source = some .graphify → stale e = false) :
    code_edges (retire_edges r n stale) = code_edges r := by
  have hstep : TableStep (fun e e' : KnowledgeEdge => e'.source = e.source ∧ (e.source = some .graphify → e' = e))
      (fun _ => False) r.edges (retire_edges r n stale).edges := by
    refine .of_update_where (fun e _ hp => ⟨rfl, fun hsource => ?_⟩) fun e _ _ => ⟨rfl, fun _ => rfl⟩
    simp [hstale e hsource] at hp
  exact code_edges_of_step hstep (fun e e' hk => hk) fun e hf => hf.elim

theorem code_edges_upsert_edge {source : EdgeSource} {key : Uuid × Uuid × EdgeType} {evidence : Jsonb}
    {row : Uuid → KnowledgeEdge} {set : KnowledgeEdge → KnowledgeEdge} (hsource : source ≠ .graphify)
    (hw : LinkWrite n source key evidence row set) (h : upsert_edge p r source key row set = some r') :
    code_edges r' = code_edges r := by
  have hother : ∀ e : KnowledgeEdge, e.source = some source → e.source ≠ some .graphify := by
    intro e he hgraphify
    exact hsource (Option.some.inj (he.symm.trans hgraphify))
  have hstep : TableStep (fun e e' : KnowledgeEdge => e'.source = e.source ∧ (e.source = some .graphify → e' = e))
      (fun e => e.source = some source) r.edges r'.edges := by
    cases upsert_edge_cases h with
    | inl hrefreshed =>
      obtain ⟨-, rfl⟩ := hrefreshed
      refine .of_update_where (fun e _ hp => ⟨hw.set_source e, fun hgraphify => ?_⟩) fun e _ _ =>
        ⟨rfl, fun _ => rfl⟩
      exact absurd hgraphify (hother e (of_decide_eq_true hp).1)
    | inr hinserted =>
      obtain ⟨-, rfl⟩ := hinserted
      refine .of_append (fun e _ => ⟨rfl, fun _ => rfl⟩) fun e he => ?_
      rw [List.mem_singleton.1 he]
      exact hw.row_source _
  exact code_edges_of_step hstep (fun e e' hk => hk) hother

theorem code_edges_run_linker {similarity : Option SimilarityProvider}
    (h : run_linker p r kb_version n similarity = some r') : code_edges r' = code_edges r := by
  simp only [run_linker, write_link_edges, Option.bind_eq_bind, Option.bind_eq_some_iff,
    Option.some.injEq] at h
  obtain ⟨drafts, -, mid, hmid, rfl⟩ := h
  have hwritten : code_edges mid = code_edges r := by
    refine foldlM_invariant (I := fun mid => code_edges mid = code_edges r) ?_ rfl hmid
    intro s draft s' _ hs hwrite
    obtain ⟨row, set, hw, hupsert⟩ := linkWrite_of_write_link_edge hwrite
    exact (code_edges_upsert_edge (by simp) hw hupsert).trans hs
  refine (code_edges_retire_edges fun e hsource => ?_).trans hwritten
  simp [stale_link, hsource]

theorem code_edges_run_judge {judge : RelationshipJudge} (h : run_judge p kb_version n judge r = some r') :
    code_edges r' = code_edges r := by
  simp only [run_judge, Option.bind_eq_bind, Option.bind_eq_some_iff, Option.some.injEq, Prod.exists] at h
  obtain ⟨mid, computed, hmid, rfl⟩ := h
  have hruled : code_edges mid = code_edges r := by
    refine foldlM_invariant (I := fun state : Registry × List (Uuid × Uuid × EdgeType) =>
      code_edges state.1 = code_edges r) ?_ rfl hmid
    intro state cand state' _ hs hstep
    obtain ⟨ruled, judgment, hruling, hcases⟩ := judge_candidate_cases hstep
    have hcached : code_edges ruled = code_edges r := by
      rw [← hs]
      exact congrArg (List.filter _) (sameCore_judgment_of hruling).edges
    cases hcases with
    | inl hrejected => exact hrejected ▸ hcached
    | inr hlinked =>
      obtain ⟨-, row, set, hw, hupsert⟩ := hlinked
      exact (code_edges_upsert_edge (by simp) hw hupsert).trans hcached
  split
  · exact hruled
  · refine (code_edges_retire_edges fun e hsource => ?_).trans hruled
    simp [hsource]

theorem code_edges_run_alias_miner (hwf : WellFormed p r) (hinj : Function.Injective p.gen_random_uuid) :
    code_edges (run_alias_miner p r kb_version r.build_seq) = code_edges r := by
  obtain ⟨-, -, hstep, -⟩ := run_alias_miner_spec kb_version hwf hinj
  apply code_edges_of_step hstep
  · intro e e' hk
    refine ⟨hk.source, fun hsource => hk.other ?_⟩
    simp [is_alias_edge, hsource]
  · intro e ha hsource
    have halias := ha.alias_edge
    simp [is_alias_edge, hsource] at halias

namespace Finalizes

variable {seen changed : List Uuid} {started_at : Timestamp} {passes : Finalized}

/-- The passes before the sweeps. -/
theorem code_edges_judged (h : Finalizes p b r seen changed started_at passes) :
    code_edges passes.judged = code_edges r := by
  have hgenerated : code_edges passes.generated = code_edges r := by
    rw [h.generated, ← code_edges_run_linker h.linked]
    exact congrArg (List.filter _) sameCore_run_candidate_generator.edges
  have hrun := h.judged
  unfold judge_links at hrun
  split at hrun
  · exact (code_edges_run_judge hrun).trans hgenerated
  · exact Option.some.inj hrun ▸ hgenerated

/-- And those after them. -/
theorem code_edges_mined (h : Finalizes p b r seen changed started_at passes) (hwf : WellFormed p r)
    (hinj : Function.Injective p.gen_random_uuid) : code_edges passes.mined = code_edges passes.invalidated := by
  have haliased : code_edges passes.aliased = code_edges passes.invalidated := by
    rw [h.aliased, ← h.invalidated_seq hwf]
    exact code_edges_run_alias_miner (h.invalidates hwf).wellFormed hinj
  rw [← haliased, h.mined, ← h.aliased_seq hwf hinj]
  obtain ⟨-, hedges, -⟩ := run_ledger_alias_miner_spec (p := p) (r := passes.aliased) b.kb_version
    b.retrieval_events b.window_start hinj
  exact congrArg (List.filter _) hedges

end Finalizes

end Frames

section Sweeps

variable {p : Platform} {r r' : Registry} {n : Nat} {e : KnowledgeEdge}

/-- An edge that is not stale is left as it is. -/
theorem mem_retire_edges {stale : KnowledgeEdge → Bool} (he : e ∈ r.edges) (hstale : stale e = false) :
    e ∈ (retire_edges r n stale).edges :=
  List.mem_map.2 ⟨e, he, if_neg (by simp [hstale])⟩

theorem touches_eq_false {ids : List Uuid} (h : ∀ id ∈ ids, touches [id] e = false) : touches ids e = false := by
  simp only [touches, Bool.or_eq_false_iff, List.contains_eq_mem, decide_eq_false_iff_not]
  constructor
  · intro hfrom
    simpa [touches] using h _ hfrom
  · intro hto
    simpa [touches] using h _ hto

private theorem mem_edges_reattach_side {old_id new_id : Uuid} {from_side : Bool}
    (h : reattach_side old_id new_id n r from_side = some r') (he : e ∈ r.edges)
    (hold : touches [old_id] e = false) : e ∈ r'.edges := by
  obtain ⟨edges, rfl, hstep⟩ := reattach_side_spec h
  have hside : e.column from_side ≠ old_id := by
    simp only [touches, Bool.or_eq_false_iff, List.contains_eq_mem, decide_eq_false_iff_not,
      List.mem_singleton] at hold
    cases from_side with
    | true => exact hold.1
    | false => exact hold.2
  obtain ⟨e', he', hk⟩ := hstep.successor he
  cases hk with
  | kept => exact he'
  | loop _ hcolumn => exact absurd hcolumn hside
  | repointed _ hcolumn => exact absurd hcolumn hside

private theorem mem_edges_reattach_edges {old_id new_id : Uuid} (h : reattach_edges r old_id new_id n = some r')
    (he : e ∈ r.edges) (hold : touches [old_id] e = false) : e ∈ r'.edges := by
  refine foldlM_invariant (I := fun mid : Registry => e ∈ mid.edges) ?_ he h
  exact fun _ _ _ _ hs hstep => mem_edges_reattach_side hstep hs hold

private theorem mem_edges_apply_rename {rename : Rename} (h : apply_rename n r rename = some r')
    (he : e ∈ r.edges) (hold : touches [rename.old_artifact_id] e = false) : e ∈ r'.edges := by
  simp only [apply_rename, Option.bind_eq_bind, Option.bind_eq_some_iff, Option.some.injEq] at h
  obtain ⟨mid, hmid, rfl⟩ := h
  have hkept : e ∈ mid.edges := mem_edges_reattach_edges hmid he hold
  exact hkept

/-- The invalidation pass leaves an edge alone when every artifact it touches belongs to a source that has not
vanished, and is no prior generation of one that changed. -/
theorem mem_edges_run_invalidation_pass {seen changed : List Uuid} {started_at : Timestamp}
    (hn : r.build_seq = n) (h : run_invalidation_pass r n seen changed started_at = some r') (he : e ∈ r.edges)
    (hends : ∀ a ∈ r.artifacts, touches [a.artifact_id] e = true →
      a.source_id ∉ vanished_live_sources r seen started_at ∧ (a.source_id ∈ changed → n ≤ a.valid_from_seq)) :
    e ∈ r'.edges := by
  simp only [run_invalidation_pass, Option.bind_eq_bind, Option.bind_eq_some_iff, Option.some.injEq] at h
  obtain ⟨renamed, hrenamed, rfl⟩ := h
  set vanished := vanished_live_sources r seen started_at with hvanished
  have hrenames : e ∈ renamed.edges := by
    refine foldlM_invariant (I := fun mid : Registry => e ∈ mid.edges) ?_ he hrenamed
    intro mid rename mid' hrename hmid hstep
    apply mem_edges_apply_rename hstep hmid
    obtain ⟨old, hold, -, hid, hsource⟩ := (isRename_of_mem hrename).old
    by_contra htouches
    rw [Bool.not_eq_false, ← hid] at htouches
    exact (hends old hold htouches).1 (hsource ▸ (isRename_of_mem hrename).vanished)
  have hsweep := sweep_apply_renames (p := ⟨id, id, fun _ => "", fun _ => "", .ascii⟩) (hn ▸ hrenamed)
  have hrows : ∀ a' ∈ renamed.artifacts, touches [a'.artifact_id] e = true →
      a'.source_id ∉ vanished ∧ (a'.source_id ∈ changed → n ≤ a'.valid_from_seq) := by
    intro a' ha' htouches
    obtain ⟨a, ha, hk⟩ := (hsweep.artifacts.origin ha').resolve_right False.elim
    rw [hk.same.source_id, hk.same.valid_from_seq]
    exact hends a ha (hk.same.artifact_id ▸ htouches)
  set swept := vanished.filter fun id => !((detected_renames r vanished n).map (·.old_source_id)).contains id
  have hdeletion : e ∈ (deletion_sweep renamed n swept).edges := by
    apply mem_retire_edges hrenames
    apply touches_eq_false
    intro id hid
    obtain ⟨a, ha, rfl⟩ := List.mem_map.1 hid
    simp only [List.mem_filter, Bool.and_eq_true, List.contains_iff_mem] at ha
    by_contra htouches
    rw [Bool.not_eq_false] at htouches
    exact (hrows a ha.1 htouches).1 (List.mem_of_mem_filter ha.2.1)
  have hsupersession : e ∈ (supersession_sweep (deletion_sweep renamed n swept) n changed).edges := by
    apply mem_retire_edges hdeletion
    apply touches_eq_false
    intro id hid
    obtain ⟨a', ha', rfl⟩ := List.mem_map.1 hid
    simp only [List.mem_filter, Bool.and_eq_true, List.contains_iff_mem, decide_eq_true_eq] at ha'
    have hretired := tableStep_retire_artifacts renamed (live_artifact_ids renamed swept) n
    obtain ⟨a, ha, hk⟩ := (hretired.origin ha'.1).resolve_right False.elim
    by_contra htouches
    rw [Bool.not_eq_false, hk.same.artifact_id] at htouches
    have hprior : a.valid_from_seq < n := hk.same.valid_from_seq ▸ ha'.2.1.2
    exact absurd ((hrows a ha htouches).2 (hk.same.source_id ▸ ha'.2.1.1)) (by omega)
  obtain ⟨artifacts, hprop, -⟩ := propagate_acl_spec (supersession_sweep (deletion_sweep renamed n swept) n changed)
    seen
  rw [hprop]
  exact hsupersession

/-- A live edge after edges were retired was there before, and was not stale. -/
theorem live_of_retire_edges {stale : KnowledgeEdge → Bool} (he : e ∈ (retire_edges r n stale).edges)
    (hlive : e.Live) : e ∈ r.edges ∧ stale e = false := by
  obtain ⟨e₀, he₀, rfl⟩ := List.mem_map.1 he
  split at hlive
  · exact absurd (show some n = none from hlive) (by simp)
  · rename_i hstale
    have hlive₀ : e₀.invalidated_at_seq = none := hlive
    rw [if_neg hstale]
    refine ⟨he₀, ?_⟩
    simpa [hlive₀] using hstale

private theorem live_edge_of_reattach_side {old_id new_id : Uuid} {from_side : Bool}
    (h : reattach_side old_id new_id n r from_side = some r') (he : e ∈ r'.edges) (hlive : e.Live) :
    ∃ e₀ ∈ r.edges, e₀.Live ∧ e₀.source = e.source ∧ (e = e₀ ∨ touches [old_id] e₀ = true) := by
  obtain ⟨edges, rfl, hstep⟩ := reattach_side_spec h
  obtain ⟨e₀, he₀, hk⟩ := (hstep.origin he).resolve_right False.elim
  have hsame := hk.sameLink.source
  cases hk with
  | kept => exact ⟨e, he₀, hlive, rfl, .inl rfl⟩
  | loop => exact absurd (show some n = none from hlive) (by simp)
  | repointed hlive₀ hold =>
    refine ⟨e₀, he₀, hlive₀, hsame.symm, .inr ?_⟩
    unfold KnowledgeEdge.column at hold
    cases from_side with
    | true => simp [touches, show e₀.from_artifact_id = old_id from hold]
    | false => simp [touches, show e₀.to_artifact_id = old_id from hold]

private theorem live_edge_of_apply_rename {rename : Rename} (h : apply_rename n r rename = some r')
    (he : e ∈ r'.edges) (hlive : e.Live) :
    ∃ e₀ ∈ r.edges, e₀.Live ∧ e₀.source = e.source ∧ (e = e₀ ∨ touches [rename.old_artifact_id] e₀ = true) := by
  simp only [apply_rename, Option.bind_eq_bind, Option.bind_eq_some_iff, Option.some.injEq] at h
  obtain ⟨mid, hmid, rfl⟩ := h
  simp only [reattach_edges, List.foldlM_cons, List.foldlM_nil, Option.bind_eq_bind, Option.bind_eq_some_iff,
    Option.pure_def, Option.some.injEq] at hmid
  obtain ⟨first, hfirst, second, hsecond, rfl⟩ := hmid
  obtain ⟨e₁, he₁, hlive₁, hsource₁, hcases₁⟩ := live_edge_of_reattach_side hsecond he hlive
  obtain ⟨e₀, he₀, hlive₀, hsource₀, hcases₀⟩ := live_edge_of_reattach_side hfirst he₁ hlive₁
  refine ⟨e₀, he₀, hlive₀, hsource₀.trans hsource₁, ?_⟩
  cases hcases₀ with
  | inr htouches => exact .inr htouches
  | inl hsame => exact hcases₁.imp (fun h => h.trans hsame) fun htouches => hsame ▸ htouches

/-- A live edge after the invalidation pass is one that touches no swept artifact, unless it comes from one that
touched a renamed artifact. -/
theorem live_edge_of_run_invalidation_pass {seen changed : List Uuid} {started_at : Timestamp}
    (hwf : WellFormed p r) (h : run_invalidation_pass r r.build_seq seen changed started_at = some r')
    (he : e ∈ r'.edges) (hlive : e.Live) :
    (∃ e₀ ∈ r.edges, e₀.Live ∧ e₀.source = e.source ∧
      ∃ rename ∈ detected_renames r (vanished_live_sources r seen started_at) r.build_seq,
        touches [rename.old_artifact_id] e₀ = true) ∨
    (e ∈ r.edges ∧ ∀ a ∈ r.artifacts, a.Live → touches [a.artifact_id] e = true →
      ¬ Swept r r.build_seq (vanished_live_sources r seen started_at) changed a) := by
  simp only [run_invalidation_pass, Option.bind_eq_bind, Option.bind_eq_some_iff, Option.some.injEq] at h
  obtain ⟨renamed, hrenamed, rfl⟩ := h
  set vanished := vanished_live_sources r seen started_at with hvanished
  have hrenames := sweep_apply_renames (p := p) hrenamed
  obtain ⟨artifacts, hprop, -⟩ := propagate_acl_spec (supersession_sweep (deletion_sweep renamed r.build_seq
    (swept_sources r r.build_seq vanished)) r.build_seq changed) seen
  have hswept : e ∈ (supersession_sweep (deletion_sweep renamed r.build_seq (swept_sources r r.build_seq vanished))
      r.build_seq changed).edges := by
    have hedges := congrArg Registry.edges hprop
    exact hedges ▸ he
  obtain ⟨hdeleted, hprior⟩ := live_of_retire_edges hswept hlive
  obtain ⟨hkept, hgone⟩ := live_of_retire_edges (r := retire_artifacts (tombstone_sources renamed
    (swept_sources r r.build_seq vanished)) (live_artifact_ids renamed (swept_sources r r.build_seq vanished))
    r.build_seq) hdeleted hlive
  have horigin : (∃ e₀ ∈ r.edges, e₀.Live ∧ e₀.source = e.source ∧
      ∃ rename ∈ detected_renames r vanished r.build_seq, touches [rename.old_artifact_id] e₀ = true) ∨
      e ∈ r.edges := by
    have hall : ∀ e ∈ renamed.edges, e.Live → (∃ e₀ ∈ r.edges, e₀.Live ∧ e₀.source = e.source ∧
        ∃ rename ∈ detected_renames r vanished r.build_seq, touches [rename.old_artifact_id] e₀ = true) ∨
        e ∈ r.edges := by
      refine foldlM_invariant (I := fun mid : Registry => ∀ e ∈ mid.edges, e.Live → (∃ e₀ ∈ r.edges, e₀.Live ∧
        e₀.source = e.source ∧ ∃ rename ∈ detected_renames r vanished r.build_seq,
          touches [rename.old_artifact_id] e₀ = true) ∨ e ∈ r.edges) ?_ (fun e he _ => .inr he) hrenamed
      intro mid rename mid' hrename hmid hstep e he hlive
      obtain ⟨e₁, he₁, hlive₁, hsource₁, hcases⟩ := live_edge_of_apply_rename hstep he hlive
      cases hmid e₁ he₁ hlive₁ with
      | inl hold =>
        obtain ⟨e₀, he₀, hlive₀, hsource₀, htouches⟩ := hold
        exact .inl ⟨e₀, he₀, hlive₀, hsource₀.trans hsource₁, htouches⟩
      | inr hmem =>
        cases hcases with
        | inl hsame => exact .inr (hsame ▸ hmem)
        | inr htouches => exact .inl ⟨e₁, hmem, hlive₁, hsource₁, rename, hrename, htouches⟩
    exact hall e hkept hlive
  by_cases htouched : ∃ rename ∈ detected_renames r vanished r.build_seq, touches [rename.old_artifact_id] e = true
  · cases horigin with
    | inl hold => exact .inl hold
    | inr hmem => exact .inl ⟨e, hmem, hlive, rfl, htouched⟩
  · refine horigin.imp_right fun hmem => ⟨hmem, ?_⟩
    intro a ha halive htouches hout
    -- the artifact outlasts the renames, so one of the two sweeps would have retired the edge with it
    obtain ⟨a₁, ha₁, hk₁⟩ := hrenames.artifacts.successor ha
    have hnot : ¬ ∃ rename ∈ detected_renames r vanished r.build_seq, a.artifact_id = rename.old_artifact_id := by
      rintro ⟨rename, hrename, hid⟩
      exact htouched ⟨rename, hrename, hid ▸ htouches⟩
    have halive₁ : a₁.Live := hk₁.live_iff.2 ⟨halive, hnot⟩
    have hwf₁ := hrenames.wellFormed hwf
    have htouches_of : ∀ {ids : List Uuid}, touches ids e = false → a.artifact_id ∉ ids := by
      intro ids hids hid
      simp only [touches, Bool.or_eq_false_iff, List.contains_eq_mem, decide_eq_false_iff_not] at hids
      simp only [touches, Bool.or_eq_true, List.contains_iff_mem, List.mem_singleton] at htouches
      exact htouches.elim (fun hfrom => hids.1 (hfrom ▸ hid)) fun hto => hids.2 (hto ▸ hid)
    have hspared : a.source_id ∉ swept_sources r r.build_seq vanished := by
      intro hsource
      apply htouches_of hgone
      rw [← hk₁.same.artifact_id]
      exact (mem_live_artifact_ids hwf₁ ha₁ halive₁).2 (hk₁.same.source_id ▸ hsource)
    rcases hout with hrename | hsource | hsuperseded
    · exact hnot hrename
    · exact hspared hsource
    · have hdeletion := sweep_deletion hwf₁ (swept_sources r r.build_seq vanished)
      rw [hrenames.build_seq] at hdeletion
      obtain ⟨a₂, ha₂, hk₂⟩ := hdeletion.artifacts.successor ha₁
      have halive₂ : a₂.Live := hk₂.live_iff.2 ⟨halive₁, hk₁.same.source_id ▸ hspared⟩
      apply htouches_of hprior
      rw [← hk₁.same.artifact_id, ← hk₂.same.artifact_id]
      refine (mem_prior_generation (hdeletion.wellFormed hwf₁) ha₂ halive₂).2 ?_
      rw [hk₂.same.source_id, hk₁.same.source_id, hk₂.same.valid_from_seq, hk₁.same.valid_from_seq]
      exact hsuperseded

end Sweeps

end AgenticKb

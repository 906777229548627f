import AgenticKb.Effects.Build

open AgenticKb.Lib

namespace AgenticKb

/-- What version `s` serves of an edge: its ends, its type and its evidence. -/
def KnowledgeEdge.served (e : KnowledgeEdge) : Uuid × (Uuid × Uuid × EdgeType) × Jsonb :=
  (e.edge_id, e.key, e.evidence)

/-- The artifacts version `s` serves. -/
def published_artifacts (r : Registry) (s : Nat) : Set Uuid :=
  published KnowledgeArtifact.toLifespan KnowledgeArtifact.artifact_id s r.artifacts

/-- The edges version `s` serves. -/
def published_edges (r : Registry) (s : Nat) : Set (Uuid × (Uuid × Uuid × EdgeType) × Jsonb) :=
  published KnowledgeEdge.toLifespan KnowledgeEdge.served s r.edges

/-- A link that an earlier version serves, or has served, is written back as it was: it has not left
before version `n`, and its evidence is the one it has. -/
def LinkKept (source : EdgeSource) (n : Nat) (r : Registry) (key : Uuid × Uuid × EdgeType)
    (evidence : Jsonb) : Prop :=
  ∀ e ∈ r.edges, IsLink source key e → e.valid_from_seq < n → Revivable n e.toLifespan ∧ e.evidence = evidence

instance (source : EdgeSource) (n : Nat) (r : Registry) (key : Uuid × Uuid × EdgeType) (evidence : Jsonb) :
    Decidable (LinkKept source n r key evidence) :=
  inferInstanceAs (Decidable (∀ e ∈ r.edges, _ → _ → _ ∧ _))

/-- A rename finds no live edge of an earlier version that it would repoint. -/
def RenameKeepsEnds (n : Nat) (r : Registry) (rename : Rename) : Prop :=
  ∀ e ∈ r.edges, e.Live → e.valid_from_seq < n → ∀ from_side,
    e.column from_side = rename.old_artifact_id → e.column (!from_side) = rename.new_artifact_id

instance (n : Nat) (r : Registry) (rename : Rename) : Decidable (RenameKeepsEnds n r rename) :=
  inferInstanceAs (Decidable (∀ e ∈ r.edges, _ → _ → ∀ _ : Bool, _ → _))

/-- The alias edges of earlier versions that are refreshed hold the evidence that is written. -/
def AliasEvidenceKept (p : Platform) (r : Registry) (kb_version : String) (n : Nat) : Prop :=
  ∀ e ∈ r.edges, is_alias_edge e = true → Revivable n e.toLifespan → e.valid_from_seq < n →
    ∀ wanted ∈ (reconcile_aliases p r kb_version n).2.get? e.pair,
      (kept_alias_edges (existing_alias_edges r n) (reconcile_aliases p r kb_version n).2).get? e.pair =
        some e.edge_id → e.evidence = .object wanted.evidence

instance (p : Platform) (r : Registry) (kb_version : String) (n : Nat) :
    Decidable (AliasEvidenceKept p r kb_version n) :=
  inferInstanceAs (Decidable (∀ e ∈ r.edges, _ → _ → _ → ∀ wanted ∈ _, _ → _))

/-- A build that completes writes no row of an earlier version other than to end it. -/
structure WritesForward (p : Platform) (r : Registry) (b : Build) : Prop where
  linker : ∀ _ ∈ (run p cached_generation r b).finalized,
    LinkerWrites (LinkKept .linker (r.build_seq + 1)) p (run p cached_generation r b).sources.current
      b.kb_version (r.build_seq + 1) b.similarity
  judge : ∀ passes ∈ (run p cached_generation r b).finalized, ∀ judge ∈ b.judge,
    JudgeWrites (LinkKept .llm_judge (r.build_seq + 1)) p passes.generated b.kb_version (r.build_seq + 1) judge
  renames : ∀ passes ∈ (run p cached_generation r b).finalized,
    AlongM (apply_rename (r.build_seq + 1)) (RenameKeepsEnds (r.build_seq + 1)) passes.judged
      (detected_renames passes.judged
        (vanished_live_sources passes.judged (run p cached_generation r b).sources.seen r.now)
        (r.build_seq + 1))
  aliases : ∀ passes ∈ (run p cached_generation r b).finalized,
    AliasEvidenceKept p passes.invalidated b.kb_version (r.build_seq + 1)

instance (p : Platform) (r : Registry) (b : Build) : Decidable (WritesForward p r b) :=
  decidable_of_iff ((∀ _ ∈ _, _) ∧ (∀ passes ∈ _, ∀ judge ∈ b.judge, _) ∧ (∀ passes ∈ _, _) ∧ ∀ passes ∈ _, _)
    ⟨fun h => ⟨h.1, h.2.1, h.2.2.1, h.2.2.2⟩, fun h => ⟨h.linker, h.judge, h.renames, h.aliases⟩⟩

/-- No version before `n` notices the difference between two registries. -/
def SameBefore (n : Nat) (r r' : Registry) : Prop :=
  ∀ s < n, published_artifacts r' s = published_artifacts r s ∧ published_edges r' s = published_edges r s

/-- What version `n` may do to an edge: anything to its own, and to an earlier one only end it, or take
back the end it has set itself. -/
structure EdgeForward (n : Nat) (e e' : KnowledgeEdge) : Prop where
  valid_from_seq : e'.valid_from_seq = e.valid_from_seq
  evolves : e.valid_from_seq < n → e.Evolves n e'.toLifespan
  served : e.valid_from_seq < n → e'.served = e.served

theorem EdgeForward.refl (n : Nat) (e : KnowledgeEdge) : EdgeForward n e e :=
  ⟨rfl, fun _ => .keep _, fun _ => rfl⟩

theorem EdgeForward.retire {n : Nat} {e : KnowledgeEdge} (hlive : e.Live) :
    EdgeForward n e { e with invalidated_at_seq := some n } := ⟨rfl, fun _ => .retire hlive, fun _ => rfl⟩

section Frames

variable {n : Nat} {r r' r'' : Registry}

theorem SameBefore.trans (h : SameBefore n r r') (h' : SameBefore n r' r'') : SameBefore n r r'' :=
  fun s hs => ⟨(h' s hs).1.trans (h s hs).1, (h' s hs).2.trans (h s hs).2⟩

theorem SameBefore.of_eq (ha : r'.artifacts = r.artifacts) (he : r'.edges = r.edges) : SameBefore n r r' := by
  intro s _
  rw [published_artifacts, published_artifacts, published_edges, published_edges, ha, he]
  exact ⟨rfl, rfl⟩

/-- Artifacts whose interval evolves, and new ones, are no difference. -/
private theorem published_artifacts_eq {Keep : KnowledgeArtifact → KnowledgeArtifact → Prop}
    {Add : KnowledgeArtifact → Prop} (h : TableStep Keep Add r.artifacts r'.artifacts)
    (hkeep : ∀ a a', Keep a a' → a'.artifact_id = a.artifact_id ∧ a.Evolves n a'.toLifespan)
    (hadd : ∀ a, Add a → a.valid_from_seq = n) {s : Nat} (hs : s < n) :
    published_artifacts r' s = published_artifacts r s :=
  h.published (fun a a' hk => (hkeep a a' hk).2.memberAt_iff hs) (fun a a' hk _ => (hkeep a a' hk).1)
    fun a ha => (hadd a ha).symm ▸ hs

/-- Edges that go forward, and new ones, are no difference either. -/
private theorem published_edges_eq {Keep : KnowledgeEdge → KnowledgeEdge → Prop}
    {Add : KnowledgeEdge → Prop} (h : TableStep Keep Add r.edges r'.edges)
    (hkeep : ∀ e e', Keep e e' → EdgeForward n e e') (hadd : ∀ e, Add e → e.valid_from_seq = n) {s : Nat}
    (hs : s < n) : published_edges r' s = published_edges r s := by
  refine h.published (fun e e' hk => ?_) (fun e e' hk hmember => ?_) fun e he => (hadd e he).symm ▸ hs
  · by_cases hlt : e.valid_from_seq < n
    · exact ((hkeep e e' hk).evolves hlt).memberAt_iff hs
    · have hfrom := (hkeep e e' hk).valid_from_seq
      constructor
      · exact fun hmember => absurd hmember (Lifespan.not_memberAt_of_lt (by omega))
      · exact fun hmember => absurd hmember (Lifespan.not_memberAt_of_lt (by omega))
  · exact (hkeep e e' hk).served (hmember.1.trans_lt hs)

/-- Only edges were written, and they went forward. -/
theorem sameBefore_edges {Keep : KnowledgeEdge → KnowledgeEdge → Prop} {Add : KnowledgeEdge → Prop}
    (h : TableStep Keep Add r.edges r'.edges) (ha : r'.artifacts = r.artifacts)
    (hkeep : ∀ e e', Keep e e' → EdgeForward n e e') (hadd : ∀ e, Add e → e.valid_from_seq = n) :
    SameBefore n r r' := by
  intro s hs
  refine ⟨?_, published_edges_eq h hkeep hadd hs⟩
  rw [published_artifacts, published_artifacts, ha]

/-- Only artifacts were written, and their intervals evolved. -/
theorem sameBefore_artifacts {Keep : KnowledgeArtifact → KnowledgeArtifact → Prop}
    {Add : KnowledgeArtifact → Prop} (h : TableStep Keep Add r.artifacts r'.artifacts)
    (he : r'.edges = r.edges)
    (hkeep : ∀ a a', Keep a a' → a'.artifact_id = a.artifact_id ∧ a.Evolves n a'.toLifespan)
    (hadd : ∀ a, Add a → a.valid_from_seq = n) : SameBefore n r r' := by
  intro s hs
  refine ⟨published_artifacts_eq h hkeep hadd hs, ?_⟩
  rw [published_edges, published_edges, he]

theorem sameBefore_retire_edges (r : Registry) (n : Nat) (stale : KnowledgeEdge → Bool) :
    SameBefore n r (retire_edges r n stale) := by
  have hstep : TableStep (EdgeForward n) (fun _ => False) r.edges (retire_edges r n stale).edges := by
    refine .of_update_where (fun e _ hp => ?_) fun e _ _ => .refl n e
    simp only [Bool.and_eq_true, Option.isNone_iff_eq_none] at hp
    exact .retire hp.1
  exact sameBefore_edges hstep rfl (fun _ _ hk => hk) fun _ hf => hf.elim

end Frames

section Passes

variable {p : Platform} {b : Build} {n : Nat} {r₀ r r' : Registry}

private theorem evolves_live {l l' : Lifespan} (h : Revivable n l) (hfrom : l'.valid_from_seq = l.valid_from_seq)
    (hlive : l'.Live) : l.Evolves n l' := by
  have heq : l' = { l with invalidated_at_seq := none } := by
    rw [Lifespan.mk.injEq]
    exact ⟨hfrom, hlive⟩
  rw [heq]
  rcases h with hl | hend
  · have hsame : { l with invalidated_at_seq := none } = l := by
      rw [Lifespan.mk.injEq]
      exact ⟨rfl, Eq.symm hl⟩
    rw [hsame]
    exact .keep l
  · exact .revive hend

/-- A link written back as it was, or a new one, goes forward. -/
private theorem linkInvariant_sameBefore (source : EdgeSource) :
    LinkInvariant p n source (LinkKept source n) (SameBefore n r₀) where
  sameCore r r' hsame h := h.trans (.of_eq hsame.artifacts hsame.edges)
  link r r' key evidence row set hseq h hok hw hupsert := by
    refine h.trans ?_
    rcases upsert_edge_cases hupsert with ⟨-, rfl⟩ | ⟨-, rfl⟩
    · have hstep : TableStep (EdgeForward n) (fun _ => False) r.edges
          (update_where r.edges (fun e => decide (IsLink source key e)) set) := by
        refine .of_update_where (fun e he hp => ?_) fun e _ _ => .refl n e
        have hlink : IsLink source key e := of_decide_eq_true hp
        refine ⟨hw.set_valid_from e, fun hlt => ?_, fun hlt => ?_⟩
        · exact evolves_live (hok e he hlink hlt).1 (hw.set_valid_from e) (hw.set_live e)
        · rw [KnowledgeEdge.served, KnowledgeEdge.served, hw.set_id, hw.set_key, hw.set_evidence,
            (hok e he hlink hlt).2]
      exact sameBefore_edges hstep rfl (fun _ _ hk => hk) fun _ hf => hf.elim
    · have hstep : TableStep (EdgeForward n) (fun e => e.valid_from_seq = n) r.edges
          (r.add_edge p row).edges :=
        .of_append (fun e _ => .refl n e) (by simpa using (hw.row_introduced _).1)
      exact sameBefore_edges hstep rfl (fun _ _ hk => hk) fun _ he => he
  retire r stale _ h := h.trans (sameBefore_retire_edges r n stale)

/-- One pass of the reattachment, when it would repoint no edge of an earlier version. -/
private theorem sameBefore_reattach_side {old_id new_id : Uuid} {from_side : Bool}
    (h : reattach_side old_id new_id n r from_side = some r')
    (hkeep : ∀ e ∈ r.edges, e.Live → e.valid_from_seq < n → e.column from_side = old_id →
      e.column (!from_side) = new_id) : SameBefore n r r' := by
  obtain ⟨edges, rfl, hstep⟩ := reattach_side_spec h
  have hforward : TableStep (EdgeForward n) (fun _ => False) r.edges edges := by
    refine hstep.mono (fun e he e' hk => ?_) fun _ hf => hf
    cases hk with
    | kept => exact .refl n e
    | loop hlive => exact .retire hlive
    | repointed hlive hold hnew =>
      have hown : ¬ e.valid_from_seq < n := fun hlt => hnew (hkeep e he hlive hlt hold)
      refine ⟨?_, fun hlt => absurd hlt hown, fun hlt => absurd hlt hown⟩
      cases from_side <;> rfl
  exact sameBefore_edges hforward rfl (fun _ _ hk => hk) fun _ hf => hf.elim

private theorem sameBefore_apply_rename {rename : Rename} (h : apply_rename n r rename = some r')
    (hkeep : RenameKeepsEnds n r rename) :
    ∀ s < n, published_edges r' s = published_edges r s := by
  simp only [apply_rename, reattach_edges, List.foldlM_cons, List.foldlM_nil, Option.bind_eq_bind,
    Option.bind_eq_some_iff, Option.pure_def, Option.some.injEq] at h
  obtain ⟨mid', ⟨mid, hfrom, mid', hto, rfl⟩, rfl⟩ := h
  have hfirst := sameBefore_reattach_side hfrom fun e he hlive hlt => hkeep e he hlive hlt true
  obtain ⟨edges, hmid, hstep⟩ := reattach_side_spec hfrom
  have hsecond : SameBefore n mid mid' := by
    refine sameBefore_reattach_side hto fun e he hlive hlt hold => ?_
    rw [hmid] at he
    obtain ⟨e₀, he₀, hk⟩ := (hstep.origin he).resolve_right False.elim
    cases hk with
    | kept => exact hkeep e he₀ hlive hlt false hold
    | loop => exact absurd (show some n = none from hlive) (by simp)
    | repointed hlive₀ hold₀ hnew₀ => exact absurd (hkeep e₀ he₀ hlive₀ hlt true hold₀) hnew₀
  intro s hs
  exact ((hsecond s hs).2.trans (hfirst s hs).2)

/-- The whole invalidation pass. -/
private theorem sameBefore_run_invalidation_pass (hwf : WellFormed p r) (hseq : r.build_seq = n)
    {seen changed : List Uuid} {started_at : Timestamp}
    (hrenames : AlongM (apply_rename n) (RenameKeepsEnds n) r
      (detected_renames r (vanished_live_sources r seen started_at) n))
    (h : run_invalidation_pass r n seen changed started_at = some r') : SameBefore n r r' := by
  have hartifacts := (run_invalidation_pass_spec (p := p) hwf (hseq.symm ▸ h)).artifacts
  simp only [run_invalidation_pass, Option.bind_eq_bind, Option.bind_eq_some_iff, Option.some.injEq] at h
  obtain ⟨renamed, hrenamed, rfl⟩ := h
  have hedges : ∀ s < n, published_edges renamed s = published_edges r s := by
    refine (AlongM.invariant (I := fun mid : Registry => mid.build_seq = n ∧
      ∀ s < n, published_edges mid s = published_edges r s) ?_ ⟨hseq, fun _ _ => rfl⟩ hrenames hrenamed).2
    rintro mid rename mid' - ⟨hmid, hsame⟩ hkeep hstep
    have hsweep := sweep_apply_rename (p := p) (hmid.symm ▸ hstep)
    exact ⟨hsweep.build_seq.trans hmid,
      fun s hs => (sameBefore_apply_rename hstep hkeep s hs).trans (hsame s hs)⟩
  intro s hs
  refine ⟨published_artifacts_eq hartifacts (fun a a' hk => ⟨hk.same.artifact_id, hseq ▸ hk.evolves⟩)
    (fun _ hf => hf.elim) hs, ?_⟩
  obtain ⟨artifacts, hprop, -⟩ := propagate_acl_spec (supersession_sweep (deletion_sweep renamed n
    (swept_sources r n (vanished_live_sources r seen started_at))) n changed) seen
  have hdeletion := (sameBefore_retire_edges renamed n (touches (live_artifact_ids renamed
    (swept_sources r n (vanished_live_sources r seen started_at)))) s hs).2
  have hsupersession := (sameBefore_retire_edges (deletion_sweep renamed n
    (swept_sources r n (vanished_live_sources r seen started_at))) n
    (touches (prior_generation (deletion_sweep renamed n
      (swept_sources r n (vanished_live_sources r seen started_at))) n changed)) s hs).2
  calc published_edges (propagate_acl _ seen) s
      = published_edges (supersession_sweep (deletion_sweep renamed n
          (swept_sources r n (vanished_live_sources r seen started_at))) n changed) s := by
        unfold swept_sources at hprop
        rw [hprop]
        rfl
    _ = published_edges (deletion_sweep renamed n
          (swept_sources r n (vanished_live_sources r seen started_at))) s := hsupersession
    _ = published_edges renamed s := hdeletion
    _ = published_edges r s := hedges s hs

/-- The alias passes: rows are refreshed in place, and an edge of an earlier version keeps its evidence. -/
private theorem sameBefore_run_alias_miner (kb_version : String) (hwf : WellFormed p r)
    (hinj : Function.Injective p.gen_random_uuid) (hkeep : AliasEvidenceKept p r kb_version r.build_seq) :
    SameBefore r.build_seq r (run_alias_miner p r kb_version r.build_seq) := by
  obtain ⟨honly, -, hedges, -⟩ := run_alias_miner_spec kb_version hwf hinj
  have hforward : TableStep (EdgeForward r.build_seq) (fun e => e.valid_from_seq = r.build_seq) r.edges
      (run_alias_miner p r kb_version r.build_seq).edges := by
    refine hedges.mono (fun e he e' hk => ?_) fun e he => he.introduced.1
    refine ⟨hk.evolves.valid_from, fun _ => hk.evolves, fun hlt => ?_⟩
    have hevidence : e'.evidence = e.evidence := by
      cases hk.evidence with
      | inl heq => exact heq
      | inr hwritten =>
        obtain ⟨halias, hrev, wanted, hwanted, hkept, heq⟩ := hwritten
        rw [heq, hkeep e he halias hrev hlt wanted hwanted hkept]
    rw [KnowledgeEdge.served, KnowledgeEdge.served, hk.edge_id, hk.key, hevidence]
  intro s hs
  constructor
  · exact published_artifacts_eq honly.artifacts (fun a a' hk => ⟨hk.artifact_id, hk.evolves⟩)
      (fun a ha => ha.valid_from_seq) hs
  · exact published_edges_eq hforward (fun _ _ hk => hk) (fun _ he => he) hs

/-- The source loop only adds rows of its own version. -/
private theorem loopRule_sameBefore (b : Build) (r₀ : Registry) :
    LoopRule p b n (fun _ _ => True) (fun _ _ => True) fun r _ => SameBefore n r₀ r where
  touched htouch h := h.trans (.of_eq htouch.artifacts htouch.edges)
  processed {s r' fetched id added} hloop h _ _ _ _ hprocessed _ := by
    refine h.trans ?_
    have hstep : TableStep (· = ·) (fun a : KnowledgeArtifact => a.valid_from_seq = n) s.current.artifacts
        r'.artifacts := by
      rw [hprocessed.artifacts]
      refine .of_append (fun _ _ => rfl) fun a ha => ?_
      exact (hprocessed.extracted a ha).introduced.1.trans hloop.current_build_seq
    exact sameBefore_artifacts hstep hprocessed.edges (fun a a' hk => hk ▸ ⟨rfl, .keep _⟩) fun _ ha => ha
  repo {s s' entry result rows added links} _ hseq _ _ h _ _ hw := by
    refine h.trans ?_
    have hartifacts : TableStep (· = ·) (fun a : KnowledgeArtifact => a.valid_from_seq = n)
        s.current.artifacts s'.current.artifacts := by
      rw [hw.artifacts]
      refine .of_append (fun _ _ => rfl) fun a ha => ?_
      obtain ⟨path, unit, -, -, -, hext⟩ := hw.extracted a ha
      exact hext.introduced.1.trans hseq
    have hedges : TableStep (· = ·) (fun e : KnowledgeEdge => e.valid_from_seq = n) s.current.edges
        s'.current.edges := by
      rw [hw.edges]
      exact .of_append (fun _ _ => rfl) fun e he => (hw.introduced e he).1.trans hseq
    intro s hs
    exact ⟨published_artifacts_eq hartifacts (fun a a' hk => hk ▸ ⟨rfl, .keep _⟩) (fun _ ha => ha) hs,
      published_edges_eq hedges (fun e e' hk => hk ▸ .refl n e) (fun _ he => he) hs⟩

end Passes

section Builds

variable {p : Platform} {b : Build} {r : Registry}

private theorem sameBefore_finalized (hinj : Function.Injective p.gen_random_uuid) {s : Registry} {n : Nat}
    (hwf : WellFormed p s) (hn : s.build_seq = n) {seen changed : List Uuid} {started_at : Timestamp}
    {passes : Finalized} (hfinal : Finalizes p b s seen changed started_at passes)
    (hlinker : LinkerWrites (LinkKept .linker n) p s b.kb_version n b.similarity)
    (hjudge : ∀ judge ∈ b.judge,
      JudgeWrites (LinkKept .llm_judge n) p passes.generated b.kb_version n judge)
    (hrenames : AlongM (apply_rename n) (RenameKeepsEnds n) passes.judged
      (detected_renames passes.judged (vanished_live_sources passes.judged seen started_at) n))
    (haliases : AliasEvidenceKept p passes.invalidated b.kb_version n) : SameBefore n s passes.mined := by
  subst hn
  have hjudged : SameBefore s.build_seq s passes.judged := hfinal.links_rule (linkInvariant_sameBefore .linker)
    (linkInvariant_sameBefore .llm_judge) (.of_eq rfl rfl) hlinker hjudge
  have hinvalidated := hjudged.trans (sameBefore_run_invalidation_pass
    (hfinal.onlyEdges_judged.wellFormed hwf) hfinal.onlyEdges_judged.build_seq hrenames hfinal.invalidated)
  have haliased : SameBefore s.build_seq passes.invalidated passes.aliased := by
    rw [hfinal.aliased]
    have hstep := sameBefore_run_alias_miner b.kb_version (hfinal.invalidates hwf).wellFormed
      hinj (by rw [hfinal.invalidated_seq hwf]; exact haliases)
    rwa [hfinal.invalidated_seq hwf] at hstep
  have hmined : SameBefore s.build_seq passes.aliased passes.mined := by
    obtain ⟨honly, hedges, -⟩ := run_ledger_alias_miner_spec (r := passes.aliased) b.kb_version
      b.retrieval_events b.window_start hinj
    rw [hfinal.aliased_seq hwf hinj] at honly hedges
    rw [hfinal.mined]
    refine sameBefore_artifacts honly.artifacts hedges (fun a a' hk => ?_) fun a ha => ?_
    · exact ⟨hk.artifact_id, hfinal.aliased_seq hwf hinj ▸ hk.evolves⟩
    · exact ha.valid_from_seq.trans (hfinal.aliased_seq hwf hinj)
  exact hinvalidated.trans (haliased.trans hmined)

/-- One build leaves every earlier version as it was. -/
theorem sameBefore_next (hwf : WellFormed p r) (hinj : Function.Injective p.gen_random_uuid)
    (hok : WritesForward p r b) : SameBefore (r.build_seq + 1) r (next p cached_generation r b) := by
  have hgood := run_rule_of_any (loopRule_sameBefore b r) hwf hinj (.of_eq rfl rfl)
  cases run_end p r b with
  | failed hsources hpasses hsame => exact hgood.committed.trans (.of_eq hsame.artifacts hsame.edges)
  | completed passes hsources hpasses hfinal hsame =>
    have hmined := sameBefore_finalized hinj hgood.current_wellFormed hgood.current_seq hfinal
      (hok.linker passes hpasses) (hok.judge passes hpasses) (hok.renames passes hpasses)
      (hok.aliases passes hpasses)
    exact hgood.current.trans (hmined.trans (.of_eq hsame.artifacts hsame.edges))

/-- A published version is served unchanged by every registry that later builds leave, as long as they
write forward. -/
theorem published_history_append (hinj : Function.Injective p.gen_random_uuid) (builds later : List Build)
    (hok : Along (next p cached_generation) (WritesForward p) (history p cached_generation builds) later) :
    ∀ s ≤ (history p cached_generation builds).build_seq,
      published_artifacts (history p cached_generation (builds ++ later)) s =
          published_artifacts (history p cached_generation builds) s ∧
        published_edges (history p cached_generation (builds ++ later)) s =
          published_edges (history p cached_generation builds) s := by
  intro s hs
  have hinv : WellFormed p (history p cached_generation (builds ++ later)) ∧
      (history p cached_generation builds).build_seq ≤
        (history p cached_generation (builds ++ later)).build_seq ∧
      SameBefore ((history p cached_generation builds).build_seq + 1) (history p cached_generation builds)
        (history p cached_generation (builds ++ later)) := by
    rw [history, List.foldl_append]
    refine hok.invariant (I := fun r => WellFormed p r ∧
      (history p cached_generation builds).build_seq ≤ r.build_seq ∧
      SameBefore ((history p cached_generation builds).build_seq + 1) (history p cached_generation builds) r)
      ?_ ⟨wellFormed_history hinj builds, le_rfl, .of_eq rfl rfl⟩
    rintro r b - ⟨hwf, hle, hsame⟩ hb
    obtain ⟨hwf', hseq⟩ := wellFormed_next (b := b) hwf hinj
    refine ⟨hwf', by omega, hsame.trans fun s hs => sameBefore_next hwf hinj hb s (by omega)⟩
  exact hinv.2.2 s (by omega)

/-- A second build over unchanged pages writes the link of the first back as it was. -/
theorem published_unchanged_pages :
    1 ≤ (history .plain cached_generation [concept_build "Alpha X"]).build_seq ∧
      published_edges (history .plain cached_generation [concept_build "Alpha X", concept_build "Alpha X"]) 1 =
        published_edges (history .plain cached_generation [concept_build "Alpha X"]) 1 :=
  ⟨by decide +kernel, (published_history_append (fun _ _ h => h) [concept_build "Alpha X"]
    [concept_build "Alpha X"] (by decide +kernel) 1 (by decide +kernel)).2⟩

/-- The link to a concept leaves in version 2, and the linker of build 3 writes it back over its old row,
under its old start: version 2 serves it again. -/
theorem unpublished_link_served_again :
    AllComplete .plain [concept_build "Alpha X", concept_build "Beta X", concept_build "Beta X"] ∧
      published_edges (history .plain cached_generation
          [concept_build "Alpha X", concept_build "Beta X", concept_build "Beta X"]) 2 ≠
        published_edges (history .plain cached_generation
          [concept_build "Alpha X", concept_build "Beta X"]) 2 := by
  refine ⟨by decide +kernel, fun h => ?_⟩
  have hserved : (5, (4, 2, EdgeType.documents), Jsonb.json_null) ∈ published_edges
      (history .plain cached_generation
        [concept_build "Alpha X", concept_build "Beta X", concept_build "Beta X"]) 2 := by
    unfold published_edges
    decide +kernel
  rw [h] at hserved
  revert hserved
  unfold published_edges
  decide +kernel

end Builds

end AgenticKb

import AgenticKb.Effects.Build
import AgenticKb.Effects.LiveEnds

open AgenticKb.Lib

namespace AgenticKb

/-- Both ends of a link are live artifacts. -/
def EndsLive (r : Registry) (key : Uuid × Uuid × EdgeType) (_ : Jsonb) : Prop :=
  LiveArtifact r key.1 ∧ LiveArtifact r key.2.1

instance (r : Registry) (key : Uuid × Uuid × EdgeType) (evidence : Jsonb) :
    Decidable (EndsLive r key evidence) := inferInstanceAs (Decidable (_ ∧ _))

/-- A key of the repo's edges that this build did not write stands for no retired artifact. -/
def CodeEndsLive (p : Platform) (b : Build) (s : SourceLoop) (entry : String × List CodeUnit) : Prop :=
  ∀ result ∈ b.graphify_tree (entry.2.map fun unit => (unit.path, unit.fetched.text)),
    ∀ staged ∈ write_repo_artifacts p b s entry.1 entry.2 result.artifacts,
      ∀ draft ∈ result.edges, ∀ key ∈ [draft.from_key, draft.to_key], staged.2.1.get? (entry.1, key) = none →
        ∀ id ∈ (resolve_key staged.1 entry.1 key staged.2.1).join, LiveArtifact staged.1 id

instance (p : Platform) (b : Build) (s : SourceLoop) (entry : String × List CodeUnit) :
    Decidable (CodeEndsLive p b s entry) :=
  inferInstanceAs (Decidable (∀ result ∈ _, ∀ staged ∈ _, ∀ draft ∈ GraphifyResult.edges result,
    ∀ key ∈ _, _ → ∀ id ∈ _, LiveArtifact _ id))

/-- Every live edge of some writers has live ends. -/
def NoGhost (of : Option EdgeSource → Prop) (r : Registry) : Prop :=
  ∀ e ∈ r.edges, of e.source → e.Live → LiveArtifact r e.from_artifact_id ∧ LiveArtifact r e.to_artifact_id

/-- None of these writers puts an edge on a retired artifact in the build, and the alias passes retire no row that still
carries an edge of one of them. -/
structure WritesOnLive (of : Option EdgeSource → Prop) (p : Platform) (r : Registry) (b : Build) : Prop where
  code : of (some .graphify) →
    AlongM (graphify_one_repo p b) (CodeEndsLive p b) (source_loop p b (start_run p r b.kb_version))
      (b.repos (source_loop p b (start_run p r b.kb_version)))
  linker : of (some .linker) → ∀ _ ∈ (run p cached_generation r b).finalized,
    LinkerWrites EndsLive p (run p cached_generation r b).sources.current b.kb_version (r.build_seq + 1)
      b.similarity
  judge : of (some .llm_judge) → ∀ passes ∈ (run p cached_generation r b).finalized, ∀ judge ∈ b.judge,
    JudgeWrites EndsLive p passes.generated b.kb_version (r.build_seq + 1) judge
  aliases : ∀ passes ∈ (run p cached_generation r b).finalized, ∀ e ∈ passes.invalidated.edges, of e.source → e.Live →
    is_alias_edge e = false → touches (aliases_retired p passes.invalidated (r.build_seq + 1)) e = false
  ledger : ∀ passes ∈ (run p cached_generation r b).finalized, ∀ e ∈ passes.aliased.edges, of e.source → e.Live →
    touches (ledger_retired p passes.aliased b.retrieval_events b.window_start) e = false

section Steps

variable {p : Platform} {b : Build} {r r' : Registry} {of : Option EdgeSource → Prop}

theorem noGhost_iff : NoGhost of r ↔ LiveEnds of (fun _ => False) r := by
  simp only [NoGhost, LiveEnds, EndLive, or_false]

theorem NoGhost.congr (h : NoGhost of r) (he : r'.edges = r.edges)
    (hlive : ∀ id, LiveArtifact r id → LiveArtifact r' id) : NoGhost of r' :=
  noGhost_iff.2 ((noGhost_iff.1 h).congr he hlive)

/-- A link between live artifacts is no ghost. -/
theorem linkInvariant_noGhost (n : Nat) (source : EdgeSource) :
    LinkInvariant p n source (fun r key evidence => of (some source) → EndsLive r key evidence) (NoGhost of) where
  sameCore r r' hsame h := h.congr hsame.edges fun _ hl => hl.congr hsame.artifacts
  link r r' key evidence row set _ h hok hw hupsert := by
    have hlands : ∀ e : KnowledgeEdge, e.source = some source → e.key = key → of e.source →
        LiveArtifact r e.from_artifact_id ∧ LiveArtifact r e.to_artifact_id := by
      intro e hsource hkey hof
      rw [show e.from_artifact_id = key.1 from congrArg (·.1) hkey,
        show e.to_artifact_id = key.2.1 from congrArg (·.2.1) hkey]
      exact hok (hsource ▸ hof)
    rcases upsert_edge_cases hupsert with ⟨-, rfl⟩ | ⟨-, rfl⟩
    · intro e he hof hlive
      obtain ⟨e₀, he₀, rfl⟩ := List.mem_map.1 he
      split at hlive
      · rename_i hlink
        have hlink₀ : IsLink source key e₀ := of_decide_eq_true hlink
        rw [if_pos hlink] at hof ⊢
        exact hlands _ ((hw.set_source e₀).trans hlink₀.1) ((hw.set_key e₀).trans hlink₀.2) hof
      · rename_i hlink
        rw [if_neg hlink] at hof ⊢
        exact h e₀ he₀ hof hlive
    · intro e he hof hlive
      rcases List.mem_append.1 he with he | he
      · exact h e he hof hlive
      · rw [List.mem_singleton.1 he] at hof ⊢
        exact hlands _ (hw.row_source _) (hw.row_key _) hof
  retire r stale _ h := noGhost_iff.2 ((noGhost_iff.1 h).retire_edges n stale)

end Steps

section Aliases

variable {p : Platform} {r : Registry} {kb_version : String} {of : Option EdgeSource → Prop}

/-- The alias pass reconciles its own edges; those of another writer must not lose an end. -/
theorem noGhost_run_alias_miner (hwf : WellFormed p r) (hinj : Function.Injective p.gen_random_uuid)
    (hg : NoGhost of r) (hkept : ∀ e ∈ r.edges, of e.source → e.Live → is_alias_edge e = false →
      touches (aliases_retired p r r.build_seq) e = false) :
    NoGhost of (run_alias_miner p r kb_version r.build_seq) := by
  obtain ⟨-, hlive, hedges, hdesired⟩ := run_alias_miner_spec kb_version hwf hinj
  intro e he hof hl
  rcases hedges.origin he with ⟨e₀, he₀, hk⟩ | hnew
  · have hfrom : e.from_artifact_id = e₀.from_artifact_id := congrArg (·.1) hk.key
    have hto : e.to_artifact_id = e₀.to_artifact_id := congrArg (·.2.1) hk.key
    cases halias : is_alias_edge e₀ with
    | true =>
      obtain ⟨wanted, hwanted⟩ := hk.wanted halias hl
      have hends := hdesired _ (Dict.mem_of_get? hwanted)
      rw [hfrom, hto]
      exact hends
    | false =>
      have heq := hk.other halias
      subst heq
      have hfree := hkept e he₀ hof hl halias
      simp only [touches, Bool.or_eq_false_iff, List.contains_eq_mem, decide_eq_false_iff_not] at hfree
      obtain ⟨hlfrom, hlto⟩ := hg e he₀ hof hl
      exact ⟨hlive _ hfree.1 hlfrom, hlive _ hfree.2 hlto⟩
  · obtain ⟨entry, hentry, hpair⟩ := hnew.wanted
    have hends := hdesired entry hentry
    rw [← hpair] at hends
    exact hends

theorem noGhost_run_ledger_alias_miner (hinj : Function.Injective p.gen_random_uuid) (hg : NoGhost of r)
    {events : List RetrievalEvent} {window_start : Timestamp}
    (hkept : ∀ e ∈ r.edges, of e.source → e.Live → touches (ledger_retired p r events window_start) e = false) :
    NoGhost of (run_ledger_alias_miner p r kb_version r.build_seq events window_start) := by
  obtain ⟨-, hedges, hlive⟩ := run_ledger_alias_miner_spec (r := r) kb_version events window_start hinj
  intro e he hof hl
  rw [hedges] at he
  have hfree := hkept e he hof hl
  simp only [touches, Bool.or_eq_false_iff, List.contains_eq_mem, decide_eq_false_iff_not] at hfree
  obtain ⟨hlfrom, hlto⟩ := hg e he hof hl
  exact ⟨hlive _ hfree.1 hlfrom, hlive _ hfree.2 hlto⟩

end Aliases

section Builds

variable {p : Platform} {b : Build} {r : Registry} {of : Option EdgeSource → Prop}

/-- The source loop only adds live artifacts, and code edges between them. -/
private theorem loopRule_noGhost (n : Nat) :
    LoopRule p b n (fun _ _ => True) (fun s entry => of (some .graphify) → CodeEndsLive p b s entry)
      fun r _ => NoGhost of r where
  touched htouch h := h.congr htouch.edges fun _ hl => hl.congr htouch.artifacts
  processed _ h _ _ _ _ hprocessed _ := h.congr hprocessed.edges fun _ hl => hl.appended hprocessed.artifacts
  repo {s s' entry result rows added links} hwf hseq hkeys _ h hok hresult hw := by
    intro e he hof hl
    rw [hw.edges] at he
    rcases List.mem_append.1 he with he | he
    · obtain ⟨hfrom, hto⟩ := h e he hof hl
      exact ⟨hfrom.appended hw.artifacts, hto.appended hw.artifacts⟩
    · rw [hw.source e he] at hof
      obtain ⟨staged, ids, hstaged, hartifacts, hsources⟩ := hw.staged
      have hresolved : ∀ id, Resolved s'.current entry.1 s'.code_key_map result.edges id →
          LiveArtifact s'.current id := by
        rintro id ⟨draft, hdraft, key, hkey, hid⟩
        cases hget : s'.code_key_map.get? (entry.1, key) with
        | none =>
          rw [resolve_key_congr hartifacts.symm hsources.symm] at hid
          exact (hok hof result hresult _ hstaged draft hdraft key hkey hget id (by simp [hid])).congr
            hartifacts.symm
        | some found =>
          simp only [resolve_key, hget, Option.some.injEq] at hid
          subst hid
          exact (hw.keys _ (Dict.mem_of_get? hget)).elim
            (fun hold => (hkeys _ hold).appended hw.artifacts) fun hl => hl
      obtain ⟨hfrom, hto⟩ := hw.endpoints e he
      exact ⟨hresolved _ hfrom, hresolved _ hto⟩

/-- The passes over the graph, one after the other. -/
private theorem noGhost_finalized {s : Registry} {n : Nat}
    (hwf : WellFormed p s) (hn : s.build_seq = n) (h : NoGhost of s) (hfresh : FreshLive n s) {seen changed : List Uuid}
    {started_at : Timestamp} {passes : Finalized} (hfinal : Finalizes p b s seen changed started_at passes)
    (hlinker : of (some .linker) → LinkerWrites EndsLive p s b.kb_version n b.similarity)
    (hjudge : of (some .llm_judge) → ∀ judge ∈ b.judge,
      JudgeWrites EndsLive p passes.generated b.kb_version n judge) :
    NoGhost of passes.invalidated := by
  subst hn
  have hlinks : LinkerWrites (fun r key evidence => of (some .linker) → EndsLive r key evidence) p s b.kb_version
      s.build_seq b.similarity := by
    intro drafts hdrafts
    by_cases hof : of (some .linker)
    · exact (hlinker hof drafts hdrafts).mono fun _ _ hok _ => hok
    · exact .of_forall fun _ _ _ h => absurd h hof
  have hrulings : ∀ judge ∈ b.judge,
      JudgeWrites (fun r key evidence => of (some .llm_judge) → EndsLive r key evidence) p passes.generated b.kb_version
        s.build_seq judge := by
    intro judge hsome
    by_cases hof : of (some .llm_judge)
    · exact (hjudge hof judge hsome).mono fun _ _ hok ruling hruling hlinked _ => hok ruling hruling hlinked
    · exact .of_forall fun _ _ _ _ _ _ h => absurd h hof
  have hjudged : NoGhost of passes.judged := hfinal.links_rule (linkInvariant_noGhost s.build_seq .linker)
    (linkInvariant_noGhost s.build_seq .llm_judge) h hlinks hrulings
  have hframe := hfinal.onlyEdges_judged
  refine noGhost_iff.2 (liveEnds_run_invalidation_pass (hframe.wellFormed hwf) (noGhost_iff.1 hjudged) ?_
    hframe.build_seq hfinal.invalidated)
  rw [hframe.artifacts]
  exact hfresh

/-- A build whose edges all land on live artifacts leaves no ghost, also when it fails. -/
theorem noGhost_next (hwf : WellFormed p r) (hinj : Function.Injective p.gen_random_uuid) (hg : NoGhost of r)
    (hok : WritesOnLive of p r b) : NoGhost of (next p cached_generation r b) := by
  have hstart : NoGhost of (start_run p r b.kb_version) := hg.congr rfl fun _ hl => hl.congr rfl
  have hcode : AlongM (graphify_one_repo p b) (fun s entry => of (some .graphify) → CodeEndsLive p b s entry)
      (source_loop p b (start_run p r b.kb_version)) (b.repos (source_loop p b (start_run p r b.kb_version))) := by
    by_cases hof : of (some .graphify)
    · exact (hok.code hof).mono fun _ _ hends _ => hends
    · exact .of_forall fun _ _ _ h => absurd h hof
  have hgood := run_rule (loopRule_noGhost (r.build_seq + 1)) hwf hinj hstart
    (.of_forall fun _ _ _ => trivial) hcode
  cases run_end p r b with
  | failed hsources hpasses hsame =>
    exact hgood.committed.congr hsame.edges fun _ hl => hl.congr hsame.artifacts
  | completed passes hsources hpasses hfinal hsame =>
    have hwf' := hgood.current_wellFormed
    have hinvalidated := noGhost_finalized hwf' hgood.current_seq hgood.current
      (freshLive_sources hwf hinj) hfinal
      (fun hof => hok.linker hof passes hpasses) (fun hof => hok.judge hof passes hpasses)
    have hseq : passes.invalidated.build_seq = r.build_seq + 1 :=
      (hfinal.invalidated_seq hwf').trans hgood.current_seq
    have haliased : NoGhost of passes.aliased := by
      rw [hfinal.aliased, hgood.current_seq, ← hseq]
      exact noGhost_run_alias_miner (hfinal.invalidates hwf').wellFormed hinj hinvalidated
        (hseq ▸ hok.aliases passes hpasses)
    have hmined : NoGhost of passes.mined := by
      rw [hfinal.mined, ← hfinal.aliased_seq hwf' hinj]
      exact noGhost_run_ledger_alias_miner hinj haliased (hok.ledger passes hpasses)
    exact hmined.congr hsame.edges fun _ hl => hl.congr hsame.artifacts

end Builds

end AgenticKb

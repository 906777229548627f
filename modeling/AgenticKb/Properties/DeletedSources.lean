import AgenticKb.Effects.Build
import AgenticKb.Effects.LiveEnds

open AgenticKb.Lib

namespace AgenticKb

/-- Version `n` serves no artifact of a deleted source, and no edge that touches one. -/
def NothingDangles (r : Registry) (n : Nat) : Prop :=
  ∀ s ∈ r.source_items, s.is_deleted = true → ∀ a ∈ r.artifacts, a.source_id = s.source_id →
    ¬ a.MemberAt n ∧ ∀ e ∈ r.edges, e.MemberAt n → touches [a.artifact_id] e = false

instance (r : Registry) (n : Nat) : Decidable (NothingDangles r n) :=
  inferInstanceAs (Decidable (∀ s ∈ r.source_items, _ → ∀ a ∈ r.artifacts, _ → _ ∧ ∀ e ∈ r.edges, _ → _))

/-- The source of this id is not deleted. -/
def SourceKept (r : Registry) (source_id : Uuid) : Prop :=
  ∀ s ∈ r.source_items, s.source_id = source_id → s.is_deleted = false

instance (r : Registry) (source_id : Uuid) : Decidable (SourceKept r source_id) :=
  inferInstanceAs (Decidable (∀ s ∈ r.source_items, _ → _))

/-- The file a draft stands for has changed, or its source is not deleted. -/
def DraftsKept (b : Build) (s : SourceLoop) (entry : String × List CodeUnit) : Prop :=
  ∀ result ∈ b.graphify_tree (entry.2.map fun unit => (unit.path, unit.fetched.text)),
    ∀ draft ∈ result.artifacts, ∀ unit ∈ unit_at entry.2 (path_of_code_key draft.key), unit.changed = false →
      ∀ row ∈ s.current.source_items, same_source unit.fetched row = true → row.is_deleted = false

instance (b : Build) (s : SourceLoop) (entry : String × List CodeUnit) : Decidable (DraftsKept b s entry) :=
  inferInstanceAs (Decidable (∀ result ∈ _, ∀ draft ∈ GraphifyResult.artifacts result, ∀ unit ∈ _, _ →
    ∀ row ∈ s.current.source_items, _ → _))

/-- Whatever is live of a renamed source is itself renamed. -/
def RenamesWhole (r : Registry) (n : Nat) (vanished : List Uuid) : Prop :=
  ∀ rename ∈ detected_renames r vanished n, ∀ a ∈ r.artifacts, a.Live → a.source_id = rename.old_source_id →
    ∃ rename' ∈ detected_renames r vanished n, a.artifact_id = rename'.old_artifact_id

instance (r : Registry) (n : Nat) (vanished : List Uuid) : Decidable (RenamesWhole r n vanished) :=
  inferInstanceAs (Decidable (∀ rename ∈ _, ∀ a ∈ r.artifacts, _ → _ → ∃ rename' ∈ _, _))

/-- A live edge touches no retired artifact of a source that is deleted or vanishes. -/
def EndsKept (r : Registry) (vanished : List Uuid) : Prop :=
  ∀ e ∈ r.edges, e.Live → ∀ a ∈ r.artifacts, touches [a.artifact_id] e = true → ¬ a.Live →
    SourceKept r a.source_id ∧ a.source_id ∉ vanished

instance (r : Registry) (vanished : List Uuid) : Decidable (EndsKept r vanished) :=
  inferInstanceAs (Decidable (∀ e ∈ r.edges, _ → ∀ a ∈ r.artifacts, _ → _ → _))

/-- The code pass writes nothing for a deleted source, a renamed source leaves nothing behind, and the
edges of the sources that leave end in artifacts the sweeps still find. -/
structure SourcesLeaveWhole (p : Platform) (r : Registry) (b : Build) : Prop where
  code : AlongM (graphify_one_repo p b) (DraftsKept b) (source_loop p b (start_run p r b.kb_version))
    (b.repos (source_loop p b (start_run p r b.kb_version)))
  renames : ∀ passes ∈ (run p cached_generation r b).finalized, RenamesWhole passes.judged (r.build_seq + 1)
    (vanished_live_sources passes.judged (run p cached_generation r b).sources.seen r.now)
  ends : ∀ passes ∈ (run p cached_generation r b).finalized, EndsKept passes.judged
    (vanished_live_sources passes.judged (run p cached_generation r b).sources.seen r.now)

instance (p : Platform) (r : Registry) (b : Build) : Decidable (SourcesLeaveWhole p r b) :=
  decidable_of_iff (_ ∧ (∀ passes ∈ _, RenamesWhole _ _ _) ∧ ∀ passes ∈ _, EndsKept _ _)
    ⟨fun h => ⟨h.1, h.2.1, h.2.2⟩, fun h => ⟨h.code, h.renames, h.ends⟩⟩

/-- No live artifact belongs to a deleted source. -/
def SourcesKept (r : Registry) : Prop := ∀ a ∈ r.artifacts, a.Live → SourceKept r a.source_id

section Loop

variable {p : Platform} {b : Build} {r r' : Registry} {n : Nat}

theorem SourceKept.congr {source_id : Uuid} (h : SourceKept r source_id)
    (hs : r'.source_items = r.source_items) : SourceKept r' source_id := fun s hmem => h s (hs ▸ hmem)

theorem SourcesKept.congr (h : SourcesKept r) (ha : r'.artifacts = r.artifacts)
    (hs : r'.source_items = r.source_items) : SourcesKept r' := fun a hmem hlive =>
  (h a (ha ▸ hmem) hlive).congr hs

/-- What the source loop writes hangs on rows it has advanced. -/
private theorem loopRule_sourcesKept :
    LoopRule p b n (fun _ _ => True) (DraftsKept b) fun r _ => SourcesKept r where
  touched htouch h a ha hlive s hs hid := by
    obtain ⟨s₀, hs₀, hk⟩ := htouch.origin hs
    exact hk.2.2.2.trans (h a (htouch.artifacts ▸ ha) hlive s₀ hs₀ (hk.1.symm.trans hid))
  processed {s r' fetched id added} _ h _ _ _ _ hprocessed _ a ha hlive s' hs' hid := by
    obtain ⟨row, hrow, hrowid, -, -, hrowlive⟩ := hprocessed.advanced.row
    by_cases hown : s'.source_id = id
    · exact hprocessed.wellFormed.source_eq hs' hrow (hown.trans hrowid.symm) ▸ hrowlive
    · rw [hprocessed.artifacts] at ha
      rcases List.mem_append.1 ha with ha | ha
      · exact h a ha hlive s' ((hprocessed.advanced.others s' hown).1 hs') hid
      · exact absurd (hid.trans (hprocessed.extracted a ha).source_id) hown
  repo {s s' entry result rows added links} _ _ _ _ h hok hresult hw a ha hlive row hrow hid := by
    have hups := hw.upserted
    rw [hw.source_items] at hrow
    rcases hups.origin row hrow with ⟨row₀, hrow₀, hk⟩ | ⟨unit, -, -, -, -, hrowlive⟩
    · rw [hw.artifacts] at ha
      rcases List.mem_append.1 ha with ha | ha
      · exact hk.2.2.2.trans (h a ha hlive row₀ hrow₀ (hk.1.symm.trans hid))
      · obtain ⟨path, unit, hat, hget, ⟨draft, hdraft, hpath⟩, -⟩ := hw.extracted a ha
        obtain ⟨row₁, hrow₁, hsame, hget₁⟩ := hups.by_path path unit hat
        have hown : row₁.source_id = a.source_id := Option.some.inj (hget₁.symm.trans hget)
        obtain rfl := hups.wellFormed.source_eq hrow₁ hrow (hown.trans hid.symm)
        cases hchanged : unit.changed with
        | true =>
          have hunit : unit ∈ entry.2 := List.mem_reverse.1 (List.mem_of_find?_eq_some hat)
          obtain ⟨-, -, -, -, -, hrowlive⟩ := hups.advanced unit hunit hchanged _ hrow hsame
          exact hrowlive
        | false =>
          rw [same_source_iff] at hsame
          exact hk.2.2.2.trans (hok result hresult draft hdraft unit (hpath ▸ hat) hchanged row₀ hrow₀
            (same_source_iff.2 (hk.2.1.symm.trans hsame)))
    · exact hrowlive

end Loop

/-- A live edge ends here, and no live artifact stands here. -/
def DeadEnd (r : Registry) (id : Uuid) : Prop :=
  ¬ LiveArtifact r id ∧ ∃ e ∈ r.edges, e.Live ∧ (e.from_artifact_id = id ∨ e.to_artifact_id = id)

section Invalidation

variable {p : Platform} {r r' : Registry} {seen changed : List Uuid} {started_at : Timestamp}

/-- A source that leaves takes its live artifacts along. -/
theorem sourcesKept_invalidates (h : SourcesKept r)
    (hinv : Invalidates p r (vanished_live_sources r seen started_at) seen changed r')
    (hwhole : RenamesWhole r r.build_seq (vanished_live_sources r seen started_at)) : SourcesKept r' := by
  intro a' ha' hlive' s' hs' hid
  obtain ⟨a, ha, hk⟩ := (hinv.artifacts.origin ha').resolve_right False.elim
  obtain ⟨s, hs, hks⟩ := (hinv.source_items.origin hs').resolve_right False.elim
  obtain ⟨hlive, hswept⟩ := hk.live_iff.1 hlive'
  rw [hk.same.source_id, show s'.source_id = s.source_id by rw [show s' = _ from hks]] at hid
  refine hks.live_iff.2 ⟨h a ha hlive s hs hid, fun htomb => ?_⟩
  rw [hid] at htomb
  rcases List.mem_append.1 htomb with hrenamed | hgone
  · obtain ⟨rename, hrename, hold⟩ := List.mem_map.1 hrenamed
    exact hswept (.inl (hwhole rename hrename a ha hlive hold.symm))
  · exact hswept (.inr (.inl hgone))

/-- Nor does an edge stay behind. -/
theorem nothingDangles_invalidated (hwf : WellFormed p r) (h : SourcesKept r) (hfresh : FreshLive r.build_seq r)
    (hinv : run_invalidation_pass r r.build_seq seen changed started_at = some r')
    (hwhole : RenamesWhole r r.build_seq (vanished_live_sources r seen started_at))
    (hends : EndsKept r (vanished_live_sources r seen started_at)) : NothingDangles r' r'.build_seq := by
  have hspec := run_invalidation_pass_spec hwf hinv
  have hwf' := hspec.wellFormed
  have hkept := sourcesKept_invalidates h hspec hwhole
  -- an end that is dead afterwards was dead before
  have hlive : LiveEnds (fun _ => True) (DeadEnd r) r' := by
    refine liveEnds_run_invalidation_pass hwf (fun e he _ hl => ?_) hfresh rfl hinv
    exact ⟨or_iff_not_imp_left.2 fun hdead => ⟨hdead, e, he, hl, .inl rfl⟩,
      or_iff_not_imp_left.2 fun hdead => ⟨hdead, e, he, hl, .inr rfl⟩⟩
  intro s hs hdeleted a ha hid
  have hdead : ¬ a.Live := fun hl => by simp [hkept a ha hl s hs hid.symm] at hdeleted
  refine ⟨fun hmember => hdead ((hwf'.artifacts_stamped a ha).memberAt_iff_live.1 hmember),
    fun e he hmember => ?_⟩
  obtain ⟨hfrom, hto⟩ := hlive e he trivial ((hwf'.edges_stamped e he).memberAt_iff_live.1 hmember)
  have hend : ∀ id, EndLive (DeadEnd r) r' id → id ≠ a.artifact_id := by
    rintro id (⟨a₁, ha₁, rfl, hl⟩ | ⟨hdead₀, e₀, he₀, hl₀, hend₀⟩) heq
    · exact hdead (hwf'.artifact_eq ha₁ ha heq ▸ hl)
    · obtain ⟨a₀, ha₀, hk⟩ := (hspec.artifacts.origin ha).resolve_right False.elim
      obtain ⟨s₀, hs₀, hks⟩ := (hspec.source_items.origin hs).resolve_right False.elim
      have hid₀ : a₀.artifact_id = id := hk.same.artifact_id.symm.trans heq.symm
      have htouch : touches [a₀.artifact_id] e₀ = true := by
        rcases hend₀ with hend₀ | hend₀ <;> simp [touches, hid₀, hend₀]
      obtain ⟨hkept₀, hstays⟩ := hends e₀ he₀ hl₀ a₀ ha₀ htouch fun hl => hdead₀ ⟨a₀, ha₀, hid₀, hl⟩
      have hown : s₀.source_id = a₀.source_id := by
        rw [← hk.same.source_id, hid, show s = _ from hks]
      have hlive₀ := hks.live_iff.2 ⟨hkept₀ s₀ hs₀ hown,
        fun htomb => hstays (hown ▸ vanished_of_mem_tombstoned htomb)⟩
      simp [hlive₀] at hdeleted
  simpa [touches] using ⟨hend _ hfrom, hend _ hto⟩

end Invalidation

section Aliases

variable {p : Platform} {r : Registry} {kb_version : String} {n : Nat}

theorem sourcesKept_retire_aliases (h : SourcesKept r) (ids : List Uuid) :
    SourcesKept (retire_aliases r n ids) := by
  intro a ha hlive
  obtain ⟨a₀, ha₀, rfl⟩ := List.mem_map.1 ha
  split at hlive
  · exact absurd (show some n = none from hlive) (by simp)
  · rename_i hp
    rw [if_neg hp]
    exact h a₀ ha₀ hlive

/-- An alias that is written hangs on its anchor. -/
theorem sourcesKept_write_alias (h : SourcesKept r) {revive : Bool} {prior : Option KnowledgeArtifact}
    {desired : DesiredAlias} (hanchor : SourceKept r desired.source_id) :
    SourcesKept (write_alias p kb_version n revive r prior desired).1 := by
  unfold write_alias
  cases prior with
  | none =>
    intro a ha hlive
    rcases List.mem_append.1 ha with ha | ha
    · exact h a ha hlive
    · obtain ⟨⟨row, id⟩, hmem, rfl⟩ := List.mem_map.1 ha
      have hrow := (List.of_mem_zip hmem).1
      simp only [List.mem_singleton] at hrow
      subst hrow
      exact hanchor
  | some row =>
    dsimp only
    split
    · exact h
    · intro a ha hlive
      obtain ⟨a₀, ha₀, heq⟩ := List.mem_map.1 ha
      dsimp only at heq
      split at heq
      · exact heq ▸ hanchor
      · exact heq ▸ h a₀ ha₀ (heq ▸ hlive)

theorem source_items_write_alias {revive : Bool} {prior : Option KnowledgeArtifact} {desired : DesiredAlias} :
    (write_alias p kb_version n revive r prior desired).1.source_items = r.source_items := by
  unfold write_alias
  cases prior with
  | none => rfl
  | some row =>
    dsimp only
    split <;> rfl

/-- A source row that is not deleted is the only one of its id. -/
theorem sourceKept_of_mem (hwf : WellFormed p r) {s : SourceItem} (hs : s ∈ r.source_items)
    (hlive : s.is_deleted = false) : SourceKept r s.source_id := fun _ hs' hid =>
  hwf.source_eq hs' hs hid ▸ hlive

/-- The alias pass mines sources that are not deleted. -/
theorem sourceKept_of_mem_mining_inputs (hwf : WellFormed p r) {input : MiningInput}
    (h : input ∈ load_mining_inputs p r) : SourceKept r input.source_id := by
  simp only [load_mining_inputs, mem_sorted, List.mem_append, List.mem_filterMap] at h
  rcases h with ⟨⟨a, s⟩, hjoined, hinput⟩ | ⟨s, hs, hinput⟩
  · obtain ⟨-, hs, -⟩ := mem_joined hjoined
    simp only [commit_input] at hinput
    split at hinput
    · rename_i hp
      simp only [Bool.and_eq_true, Bool.not_eq_true'] at hp
      split at hinput
      · obtain rfl := Option.some.inj hinput
        exact sourceKept_of_mem hwf hs hp.2
      · simp at hinput
    · simp at hinput
  · simp only [doc_input] at hinput
    split at hinput
    · split at hinput
      · rename_i hp
        simp only [Bool.and_eq_true, Bool.not_eq_true'] at hp
        obtain rfl := Option.some.inj hinput
        exact sourceKept_of_mem hwf hs hp.1.2
      · simp at hinput
    · simp at hinput

/-- The anchor of a wanted alias is one of the inputs. -/
theorem mem_inputs_of_desired_alias {u : Unicode} {inputs : List MiningInput}
    {path_acls : Dict String (List String)} {path_artifacts : Dict String Uuid} {aggregate : AliasAggregate}
    {wanted : DesiredAlias} (h : desired_alias u inputs path_acls path_artifacts aggregate = some wanted) :
    ∃ input ∈ inputs, input.source_id = wanted.source_id := by
  simp only [desired_alias, Option.bind_eq_bind, Option.bind_eq_some_iff, Option.some.injEq] at h
  obtain ⟨first, -, anchor, hanchor, rfl⟩ := h
  exact ⟨anchor, List.mem_reverse.1 (List.mem_of_find?_eq_some hanchor), rfl⟩

theorem sourcesKept_reconcile_artifacts (h : SourcesKept r) {aggregates : List AliasAggregate}
    {prior_rows : Dict String KnowledgeArtifact} {desired : AliasAggregate → Option DesiredAlias}
    (hanchor : ∀ aggregate, ∀ wanted ∈ desired aggregate, SourceKept r wanted.source_id) :
    SourcesKept (reconcile_artifacts p r kb_version n aggregates prior_rows desired).1 := by
  suffices hkept : SourcesKept (reconcile_artifacts p r kb_version n aggregates prior_rows desired).1 ∧
      (reconcile_artifacts p r kb_version n aggregates prior_rows desired).1.source_items = r.source_items from
    hkept.1
  apply reconcile_artifacts_rule (I := fun mid => SourcesKept mid ∧ mid.source_items = r.source_items)
  · rintro mid aggregate - wanted hwanted ⟨hmid, hsources⟩
    exact ⟨sourcesKept_write_alias hmid ((hanchor aggregate wanted hwanted).congr hsources),
      source_items_write_alias.trans hsources⟩
  · rintro mid ⟨hmid, hsources⟩
    exact ⟨sourcesKept_retire_aliases hmid _, hsources⟩
  · exact ⟨h, rfl⟩

theorem sourcesKept_run_alias_miner (h : SourcesKept r) (hwf : WellFormed p r)
    (hinj : Function.Injective p.gen_random_uuid) :
    SourcesKept (run_alias_miner p r kb_version r.build_seq) := by
  have hretired := sourcesKept_retire_aliases (n := r.build_seq) h (duplicate_rows (alias_rows r r.build_seq))
  have haliases : SourcesKept (reconcile_aliases p r kb_version r.build_seq).1 := by
    refine sourcesKept_reconcile_artifacts hretired fun aggregate wanted hwanted => ?_
    obtain ⟨input, hinput, hanchor⟩ := mem_inputs_of_desired_alias hwanted
    exact hanchor ▸ sourceKept_of_mem_mining_inputs hwf hinput
  have hseq := (reconcile_aliases_spec kb_version hwf hinj).1.build_seq
  have hedges := (reconcile_edges_spec p (reconcile_aliases p r kb_version r.build_seq).1 kb_version
    (reconcile_aliases p r kb_version r.build_seq).2).1
  rw [hseq] at hedges
  exact haliases.congr hedges.artifacts hedges.source_items

/-- The ledger pass anchors its aliases on sources that are not deleted. -/
theorem sourceKept_of_mem_ledger_candidates (hwf : WellFormed p r)
    {entry : String × KnowledgeArtifact × LedgerTarget} (h : entry ∈ (load_ledger_candidates p.unicode r).2) :
    SourceKept r entry.2.2.source_id := by
  have hrow : ∀ row ∈ r.joined.filterMap (ledger_candidate p.unicode), SourceKept r row.2.2.2.source_id := by
    intro row hrow
    obtain ⟨⟨a, s⟩, hjoined, hcandidate⟩ := List.mem_filterMap.1 hrow
    obtain ⟨-, hs, -⟩ := mem_joined hjoined
    simp only [ledger_candidate] at hcandidate
    split at hcandidate
    · split at hcandidate
      · rename_i hp
        simp only [Bool.and_eq_true, Bool.not_eq_true'] at hp
        obtain rfl := Option.some.inj hcandidate
        exact sourceKept_of_mem hwf hs hp.1.2
      · simp at hcandidate
    · simp at hcandidate
  refine foldl_invariant (I := fun d : Dict String (KnowledgeArtifact × LedgerTarget) =>
    ∀ entry ∈ d, SourceKept r entry.2.2.source_id) ?_ (by simp) entry h
  rintro d ⟨alias_name, path, a, s⟩ hmem hd entry hentry
  have hset : entry ∈ d.set path (a, ⟨a.artifact_id, s.acl_teams, s.source_id⟩) →
      SourceKept r entry.2.2.source_id := by
    intro hentry
    rcases Dict.mem_set hentry with hold | rfl
    · exact hd entry hold
    · exact hrow _ hmem
  dsimp only at hentry
  split at hentry
  · exact hset hentry
  · split at hentry
    · exact hset hentry
    · exact hd entry hentry

theorem sourcesKept_run_ledger_alias_miner (h : SourcesKept r) (hwf : WellFormed p r)
    {events : List RetrievalEvent} {window_start : Timestamp} :
    SourcesKept (run_ledger_alias_miner p r kb_version n events window_start) := by
  have hwanted : ∀ wanted ∈ ledger_wanted p.unicode r events window_start, SourceKept r wanted.source_id := by
    intro wanted hmem
    obtain ⟨group, -, halias⟩ := List.mem_filterMap.1 hmem
    simp only [ledger_alias, Option.bind_eq_bind, Option.bind_eq_some_iff] at halias
    obtain ⟨_, -, target_path, -, ⟨a, target⟩, hget, halias⟩ := halias
    split at halias
    · simp at halias
    · obtain rfl := Option.some.inj halias
      exact sourceKept_of_mem_ledger_candidates hwf (Dict.mem_of_get? hget)
  refine sourcesKept_retire_aliases ?_ _
  refine (foldl_invariant (I := fun mid : Registry => mid.source_items = r.source_items ∧ SourcesKept mid)
    ?_ ⟨rfl, h⟩).2
  rintro mid desired hmem ⟨hsources, hmid⟩
  exact ⟨source_items_write_alias.trans hsources,
    sourcesKept_write_alias hmid ((hwanted desired hmem).congr hsources)⟩

end Aliases

section Builds

variable {p : Platform} {b : Build} {r : Registry}

/-- What the invalidation pass of a build, if it gets there, leaves of the deleted sources. -/
def DeletionsClean (p : Platform) (r : Registry) (b : Build) : Prop :=
  ∀ passes ∈ (run p cached_generation r b).finalized,
    NothingDangles passes.invalidated passes.invalidated.build_seq

instance (p : Platform) (r : Registry) (b : Build) : Decidable (DeletionsClean p r b) :=
  inferInstanceAs (Decidable (∀ passes ∈ _, NothingDangles _ _))

/-- One build, completed or not. -/
theorem sourcesKept_next (hwf : WellFormed p r) (hinj : Function.Injective p.gen_random_uuid)
    (h : SourcesKept r) (hok : SourcesLeaveWhole p r b) :
    SourcesKept (next p cached_generation r b) ∧ DeletionsClean p r b := by
  have hgood := run_rule (loopRule_sourcesKept (n := r.build_seq + 1)) hwf hinj (h.congr rfl rfl)
    (.of_forall fun _ _ _ => trivial) hok.code
  cases run_end p r b with
  | failed hsources hpasses hsame =>
    refine ⟨hgood.committed.congr hsame.artifacts hsame.source_items, fun passes hmem => ?_⟩
    simp [hpasses] at hmem
  | completed passes hsources hpasses hfinal hsame =>
    have hwf' := hgood.current_wellFormed
    have hframe := hfinal.onlyEdges_judged
    have hjudged : SourcesKept passes.judged := hgood.current.congr hframe.artifacts hframe.source_items
    have hseq : passes.judged.build_seq = r.build_seq + 1 := hframe.build_seq.trans hgood.current_seq
    have hwhole := hok.renames passes hpasses
    rw [← hseq] at hwhole
    have hinvalidates := hfinal.invalidates hwf'
    have hkept := sourcesKept_invalidates hjudged hinvalidates hwhole
    have haliased : SourcesKept passes.aliased := by
      rw [hfinal.aliased, ← hfinal.invalidated_seq hwf']
      exact sourcesKept_run_alias_miner hkept hinvalidates.wellFormed hinj
    have hmined : SourcesKept passes.mined := by
      rw [hfinal.mined]
      exact sourcesKept_run_ledger_alias_miner haliased
        ((hfinal.onlyAliases_aliased hwf' hinj).wellFormed hinvalidates.wellFormed)
    refine ⟨hmined.congr hsame.artifacts hsame.source_items, fun passes' hmem => ?_⟩
    obtain rfl : passes' = passes := Option.some.inj (hmem.symm.trans hpasses)
    have hinv := hfinal.invalidated
    rw [← hframe.build_seq] at hinv
    refine nothingDangles_invalidated (hframe.wellFormed hwf') hjudged ?_ hinv hwhole (hok.ends _ hpasses)
    rw [hseq, FreshLive, hframe.artifacts]
    exact freshLive_sources hwf hinj

/-- After the invalidation pass of every build nothing live hangs on a deleted source, as long as the
sources that leave leave whole. -/
theorem deletionsClean_builds (hinj : Function.Injective p.gen_random_uuid) (builds : List Build)
    (hok : Along (next p cached_generation) (SourcesLeaveWhole p) Registry.empty builds) :
    Along (next p cached_generation) (DeletionsClean p) Registry.empty builds := by
  refine hok.imp_of_invariant (I := fun r => WellFormed p r ∧ SourcesKept r) ?_ ?_
    ⟨wellFormed_empty p, by simp [SourcesKept, Registry.empty]⟩
  · exact fun r b _ h hb => ⟨(wellFormed_next h.1 hinj).1, (sourcesKept_next h.1 hinj h.2 hb).1⟩
  · exact fun r b _ h hb => (sourcesKept_next h.1 hinj h.2 hb).2

/-- A build over wiki pages, each extracted as one fact for each letter of its text. -/
def letters_build (pages : List (String × String)) : Build :=
  { page_build pages with
    extract := fun fetched => some <|
      fetched.text.toList.map fun c => ⟨.source_backed_fact, none, String.singleton c, 1, 1⟩ }

/-- The only fact of a page moves to another page. -/
theorem deletionsClean_moved_fact :
    (history .plain cached_generation
      [letters_build [("d", "A")], letters_build [("e", "AB")]]).source_items.map (·.is_deleted) = [true, false] ∧
    Along (next .plain cached_generation) (DeletionsClean .plain) Registry.empty
      [letters_build [("d", "A")], letters_build [("e", "AB")]] :=
  ⟨by decide +kernel, deletionsClean_builds (fun _ _ h => h) _ (by decide +kernel)⟩

/-- One of the two facts of a page reappears on another page. The page counts as renamed, so it is
tombstoned and not swept, and its other fact stays live. -/
theorem fact_of_renamed_page_stays :
    AllComplete .plain [letters_build [("d", "AB")], letters_build [("e", "A")]] ∧
    ¬ Along (next .plain cached_generation) (DeletionsClean .plain) Registry.empty
      [letters_build [("d", "AB")], letters_build [("e", "A")]] := by
  decide +kernel

end Builds

end AgenticKb

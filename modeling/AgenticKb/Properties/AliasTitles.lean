import AgenticKb.Effects.Build

open AgenticKb.Lib

namespace AgenticKb

/-- No two alias rows of version `n` have the same title. -/
def OneAliasPerTitle (n : Nat) (r : Registry) : Prop :=
  ∀ a ∈ r.artifacts, ∀ b ∈ r.artifacts, a.artifact_type = .alias_reference → b.artifact_type = .alias_reference →
    a.MemberAt n → b.MemberAt n → ∀ title, a.title = some title → b.title = some title → a = b

/-- A pass of one of the two miners; the ledger's comes with the rows and the window it reads. -/
inductive AliasMiner where
  | documents
  | ledger (events : List RetrievalEvent) (window_start : Timestamp)
deriving DecidableEq

def mine (p : Platform) (kb_version : String) (valid_from_seq : Nat) (r : Registry) : AliasMiner → Registry
  | .documents => run_alias_miner p r kb_version valid_from_seq
  | .ledger events window_start => run_ledger_alias_miner p r kb_version valid_from_seq events window_start

/-- One build, with its miners taking turns in this order. -/
def run_mined (p : Platform) (r : Registry) (turn : Build × List AliasMiner) : Registry :=
  let outcome := run p cached_generation r turn.1
  match outcome.finalized with
  | some passes =>
    finish_run (turn.2.foldl (mine p turn.1.kb_version passes.invalidated.build_seq) passes.invalidated) (r.fresh p)
      .completed outcome.sources.extractor_failures
  | none => outcome.registry

/-- If the build finalises, its version has one alias row of each title. -/
def TitlesSettled (p : Platform) (r : Registry) (turn : Build × List AliasMiner) : Prop :=
  (run p cached_generation r turn.1).finalized.isSome = true →
    OneAliasPerTitle (run_mined p r turn).build_seq (run_mined p r turn)

/-- The registry has a live alias row of this title and id. -/
def LiveAlias (r : Registry) (title : String) (id : Uuid) : Prop :=
  ∃ a ∈ r.artifacts, a.artifact_type = .alias_reference ∧ a.Live ∧ a.title = some title ∧ a.artifact_id = id

/-- The live alias rows of a title are one. -/
def OneLiveAlias (r : Registry) : Prop :=
  ∀ title id id', LiveAlias r title id → LiveAlias r title id' → id = id'

section Phrases

variable {u : Unicode}

/-- The aggregates are made of a dictionary of phrases. -/
theorem nodup_aggregates (contributions : List SourceContribution) :
    ((aggregate_contributions u contributions).map (·.phrase)).Nodup := by
  have hempty : (([] : Dict String (List ContributionEvidence)).map (·.1)).Nodup := List.nodup_nil
  rw [aggregate_contributions, List.map_map]
  apply nodup_map_sorted
  refine foldl_invariant (I := fun d : Dict String (List ContributionEvidence) => (d.map (·.1)).Nodup) ?_ hempty
  intro d contribution _ hd
  exact foldl_invariant (I := fun d : Dict String (List ContributionEvidence) => (d.map (·.1)).Nodup)
    (fun d mined _ hd => Dict.nodup_set hd) hd

theorem nodup_miss_groups (events : List RetrievalEvent) (window_start : Timestamp) :
    ((load_miss_groups u events window_start).map (·.phrase)).Nodup := by
  have hempty : (([] : Dict String (List RetrievalEvent)).map (·.1)).Nodup := List.nodup_nil
  rw [load_miss_groups, List.map_map]
  apply nodup_map_sorted
  refine foldl_invariant (I := fun d : Dict String (List RetrievalEvent) => (d.map (·.1)).Nodup) ?_ hempty
  intro d event _ hd
  dsimp only
  split
  · exact hd
  · exact Dict.nodup_set hd

variable {entries : List AliasEntry} {targets : Dict String (KnowledgeArtifact × LedgerTarget)} {titles : List String}
  {owned : Dict String KnowledgeArtifact} {group : MissGroup} {wanted : DesiredAlias}

/-- A miss asks for an alias of its phrase, and for none where another pass has one. -/
theorem ledger_alias_phrase (h : ledger_alias u entries targets titles owned group = some wanted) :
    wanted.phrase = group.phrase ∧ (owned.get? wanted.phrase = none → wanted.phrase ∉ titles) := by
  simp only [ledger_alias, Option.bind_eq_bind, Option.bind_eq_some_iff] at h
  obtain ⟨found, -, path, -, ⟨artifact, target⟩, -, h⟩ := h
  split at h
  · cases h
  · rename_i hfree
    rw [← Option.some.inj h]
    refine ⟨rfl, ?_⟩
    intro hnone htitle
    apply hfree
    simp [hnone, htitle]

theorem nodup_ledger_wanted (r : Registry) (events : List RetrievalEvent) (window_start : Timestamp) :
    ((ledger_wanted u r events window_start).map (·.phrase)).Nodup := by
  have hgroups := List.pairwise_map.mp (nodup_miss_groups (u := u) events window_start)
  rw [ledger_wanted, List.Nodup, List.pairwise_map, List.pairwise_filterMap]
  refine hgroups.imp ?_
  intro group group' hne wanted hwanted wanted' hwanted'
  rw [(ledger_alias_phrase hwanted).1, (ledger_alias_phrase hwanted').1]
  exact hne

end Phrases

section Writes

variable {p : Platform} {r : Registry} {kb_version title : String} {n : Nat} {revive : Bool} {id : Uuid}
  {desired : DesiredAlias} {row a : KnowledgeArtifact} {ids : List Uuid}

/-- The rows after an insertion. -/
theorem mem_write_new (h : a ∈ (write_alias p kb_version n revive r none desired).1.artifacts) :
    a ∈ r.artifacts ∨ a.artifact_id = r.fresh p ∧ a.title = some desired.phrase := by
  cases List.mem_append.mp h with
  | inl hold => exact .inl hold
  | inr hnew =>
    simp only [List.length_singleton, List.range_one, List.map_cons, List.map_nil, List.zip_cons_cons, List.zip_nil_left,
      List.mem_singleton] at hnew
    subst hnew
    exact .inr ⟨rfl, rfl⟩

/-- A row after a refresh, and the row it was. -/
theorem mem_write_prior (h : a ∈ (write_alias p kb_version n revive r (some row) desired).1.artifacts) :
    ∃ old ∈ r.artifacts, old.artifact_id = a.artifact_id ∧ old.title = a.title ∧
      old.artifact_type = a.artifact_type ∧ (a = old ∨ a.artifact_id = row.artifact_id ∧ (revive = false → a.Live → old.Live)) := by
  unfold write_alias at h
  dsimp only at h
  split at h
  · exact ⟨a, h, rfl, rfl, rfl, .inl rfl⟩
  · obtain ⟨old, hold, rfl⟩ := List.mem_map.mp h
    refine ⟨old, hold, ?_⟩
    split
    · rename_i hsel
      rw [Bool.and_eq_true, beq_iff_eq, beq_iff_eq] at hsel
      refine ⟨rfl, rfl, rfl, .inr ⟨hsel.2, ?_⟩⟩
      intro hkeep hlive
      rw [hkeep] at hlive
      exact hlive
    · exact ⟨rfl, rfl, rfl, .inl rfl⟩

theorem mem_retire_aliases (h : a ∈ (retire_aliases r n ids).artifacts) :
    ∃ old ∈ r.artifacts, old.artifact_id = a.artifact_id ∧ old.title = a.title ∧
      (a.Live → a = old ∧ (a.artifact_type = .alias_reference → a.artifact_id ∉ ids)) := by
  obtain ⟨old, hold, rfl⟩ := List.mem_map.mp h
  refine ⟨old, hold, ?_⟩
  split
  · refine ⟨rfl, rfl, ?_⟩
    intro hlive
    cases hlive
  · rename_i hkept
    refine ⟨rfl, rfl, ?_⟩
    intro hlive
    refine ⟨rfl, ?_⟩
    intro htype hin
    apply hkept
    simp only [htype, beq_self_eq_true, List.contains_eq_mem, hin, decide_true, Bool.and_self, Bool.true_and]
    exact Option.isNone_iff_eq_none.mpr hlive

theorem liveAlias_write_new (h : LiveAlias (write_alias p kb_version n revive r none desired).1 title id) :
    LiveAlias r title id ∨ title = desired.phrase ∧ id = r.fresh p := by
  obtain ⟨a, ha, htype, hlive, htitle, rfl⟩ := h
  cases mem_write_new ha with
  | inl hold => exact .inl ⟨a, hold, htype, hlive, htitle, rfl⟩
  | inr hnew =>
    rw [hnew.2, Option.some.injEq] at htitle
    exact .inr ⟨htitle.symm, hnew.1⟩

theorem liveAlias_write_prior (h : LiveAlias (write_alias p kb_version n revive r (some row) desired).1 title id) :
    LiveAlias r title id ∨ revive = true ∧ id = row.artifact_id ∧
      ∃ old ∈ r.artifacts, old.artifact_id = id ∧ old.title = some title := by
  obtain ⟨a, ha, htype, hlive, htitle, rfl⟩ := h
  obtain ⟨old, hold, hid, holdtitle, holdtype, hkept⟩ := mem_write_prior ha
  cases hkept with
  | inl heq => exact .inl ⟨a, heq ▸ hold, htype, hlive, htitle, rfl⟩
  | inr hrow =>
    cases revive with
    | true => exact .inr ⟨rfl, hrow.1, old, hold, hid, holdtitle.trans htitle⟩
    | false => exact .inl ⟨old, hold, holdtype.trans htype, hrow.2 rfl hlive, holdtitle.trans htitle, hid⟩

theorem liveAlias_retire (h : LiveAlias (retire_aliases r n ids) title id) : LiveAlias r title id ∧ id ∉ ids := by
  obtain ⟨a, ha, htype, hlive, htitle, rfl⟩ := h
  obtain ⟨old, hold, -, -, hsame⟩ := mem_retire_aliases ha
  obtain ⟨heq, hnot⟩ := hsame hlive
  exact ⟨⟨a, heq ▸ hold, htype, hlive, htitle, rfl⟩, hnot htype⟩

theorem OneLiveAlias.retire (h : OneLiveAlias r) : OneLiveAlias (retire_aliases r n ids) :=
  fun title id id' hid hid' => h title id id' (liveAlias_retire hid).1 (liveAlias_retire hid').1

end Writes

section Documents

variable {p : Platform} {r mid : Registry} {kb_version : String} {prior_rows : Dict String KnowledgeArtifact}
  {desired : AliasAggregate → Option DesiredAlias}

/-- Between two upserts: a live row of a phrase with a prior row is that row, and one row stands for a phrase. -/
structure Settling (p : Platform) (r : Registry) (prior_rows : Dict String KnowledgeArtifact) (mid : Registry) : Prop where
  only : OnlyAliases p r mid
  live : ∀ id, LiveArtifact r id → LiveArtifact mid id
  titled : ∀ entry ∈ prior_rows, ∀ a ∈ mid.artifacts, a.artifact_id = entry.2.artifact_id → a.title = some entry.1
  kept : ∀ title id row, prior_rows.get? title = some row → LiveAlias mid title id → id = row.artifact_id
  one : OneLiveAlias mid

/-- One upsert, for a phrase whose row is a prior one or that has no live row. -/
theorem Settling.write (hinj : Function.Injective p.gen_random_uuid) (hwf : WellFormed p r)
    (hprior : PriorRows r prior_rows) (h : Settling p r prior_rows mid) {wanted : DesiredAlias}
    (hvacant : prior_rows.get? wanted.phrase = none → ∀ id, ¬ LiveAlias mid wanted.phrase id) :
    Settling p r prior_rows
      (write_alias p kb_version r.build_seq true mid (prior_rows.get? wanted.phrase) wanted).1 := by
  have hprior' := hprior.next h.only h.live
  have hwf' := h.only.wellFormed hwf
  have honly : OnlyAliases p mid (write_alias p kb_version r.build_seq true mid (prior_rows.get? wanted.phrase) wanted).1 := by
    rw [← h.only.build_seq]
    exact onlyAliases_write_alias hinj fun _ row hrow a ha hid =>
      hprior'.revivable a ha ⟨_, Dict.mem_of_get? hrow, hid.symm⟩
  have hlive : ∀ id, LiveArtifact r id → LiveArtifact (write_alias p kb_version r.build_seq true mid
      (prior_rows.get? wanted.phrase) wanted).1 id := fun id hid => liveArtifact_write_alias (h.live id hid)
  refine ⟨h.only.trans honly, hlive, ?_, ?_, ?_⟩
  · intro entry hentry a ha hid
    cases hget : prior_rows.get? wanted.phrase with
    | none =>
      rw [hget] at ha
      cases mem_write_new ha with
      | inl hold => exact h.titled entry hentry a hold hid
      | inr hnew =>
        -- a fresh id stands for no row yet
        obtain ⟨old, hold, hold_id, -⟩ := hprior'.row entry hentry
        obtain ⟨i, hi, hdrawn⟩ := hwf'.artifact_ids_drawn old hold
        have heq : i = mid.uuids := hinj (hdrawn.trans (hold_id.trans (hid.symm.trans hnew.1)))
        omega
    | some row =>
      rw [hget] at ha
      obtain ⟨old, hold, hold_id, hold_title, -⟩ := mem_write_prior ha
      rw [← hold_title]
      exact h.titled entry hentry old hold (hold_id.trans hid)
  · intro title id row hrow hid
    cases hget : prior_rows.get? wanted.phrase with
    | none =>
      rw [hget] at hid
      cases liveAlias_write_new hid with
      | inl hold => exact h.kept title id row hrow hold
      | inr hnew =>
        rw [hnew.1, hget] at hrow
        cases hrow
    | some prior =>
      rw [hget] at hid
      cases liveAlias_write_prior hid with
      | inl hold => exact h.kept title id row hrow hold
      | inr hrevived =>
        obtain ⟨-, hprior_id, old, hold, hold_id, hold_title⟩ := hrevived
        have htitle := h.titled _ (Dict.mem_of_get? hget) old hold (hold_id.trans hprior_id)
        rw [hold_title, Option.some.injEq] at htitle
        rw [htitle, hget, Option.some.injEq] at hrow
        rw [hprior_id, hrow]
  · intro title id id' hid hid'
    cases hget : prior_rows.get? wanted.phrase with
    | none =>
      rw [hget] at hid hid'
      have hvacant := hvacant hget
      cases liveAlias_write_new hid with
      | inl hold =>
        cases liveAlias_write_new hid' with
        | inl hold' => exact h.one title id id' hold hold'
        | inr hnew' => exact absurd (hnew'.1 ▸ hold) (hvacant id)
      | inr hnew =>
        cases liveAlias_write_new hid' with
        | inl hold' => exact absurd (hnew.1 ▸ hold') (hvacant id')
        | inr hnew' => rw [hnew.2, hnew'.2]
    | some prior =>
      rw [hget] at hid hid'
      have hcase : ∀ {id}, LiveAlias (write_alias p kb_version r.build_seq true mid (some prior) wanted).1 title id →
          LiveAlias mid title id ∨ title = wanted.phrase ∧ id = prior.artifact_id := by
        intro id hid
        cases liveAlias_write_prior hid with
        | inl hold => exact .inl hold
        | inr hrevived =>
          obtain ⟨-, hprior_id, old, hold, hold_id, hold_title⟩ := hrevived
          have htitle := h.titled _ (Dict.mem_of_get? hget) old hold (hold_id.trans hprior_id)
          rw [hold_title, Option.some.injEq] at htitle
          exact .inr ⟨htitle, hprior_id⟩
      have hprior_row : ∀ {id}, title = wanted.phrase → LiveAlias mid title id → id = prior.artifact_id :=
        fun htitle hold => h.kept title _ prior (htitle ▸ hget) hold
      cases hcase hid with
      | inl hold =>
        cases hcase hid' with
        | inl hold' => exact h.one title id id' hold hold'
        | inr hnew' => rw [hprior_row hnew'.1 hold, hnew'.2]
      | inr hnew =>
        cases hcase hid' with
        | inl hold' => rw [hprior_row hnew.1 hold', hnew.2]
        | inr hnew' => rw [hnew.2, hnew'.2]

/-- The upserts, one phrase after another. -/
theorem Settling.upserts (hinj : Function.Injective p.gen_random_uuid) (hwf : WellFormed p r)
    (hprior : PriorRows r prior_rows) {aggregates : List AliasAggregate}
    (hnodup : (aggregates.map (·.phrase)).Nodup)
    (hphrase : ∀ aggregate ∈ aggregates, ∀ wanted ∈ desired aggregate, wanted.phrase = aggregate.phrase)
    {state : Registry × Dict String Uuid} (h : Settling p r prior_rows state.1)
    (hvacant : ∀ aggregate ∈ aggregates, prior_rows.get? aggregate.phrase = none →
      ∀ id, ¬ LiveAlias state.1 aggregate.phrase id) :
    Settling p r prior_rows
      (aggregates.foldl (upserted p kb_version r.build_seq prior_rows desired) state).1 := by
  induction aggregates generalizing state with
  | nil => exact h
  | cons aggregate aggregates ih =>
    rw [List.map_cons, List.nodup_cons] at hnodup
    rw [List.foldl_cons]
    have hrest : ∀ other ∈ aggregates, other.phrase ≠ aggregate.phrase := by
      intro other hother heq
      exact hnodup.1 (heq ▸ List.mem_map_of_mem hother)
    cases hwanted : desired aggregate with
    | none =>
      have hsame : upserted p kb_version r.build_seq prior_rows desired state aggregate = state := by
        unfold upserted
        rw [hwanted]
      rw [hsame]
      exact ih hnodup.2 (fun other hother => hphrase other (List.mem_cons_of_mem _ hother)) h
        fun other hother => hvacant other (List.mem_cons_of_mem _ hother)
    | some wanted =>
      have hwanted_phrase := hphrase aggregate List.mem_cons_self wanted hwanted
      have hstep : (upserted p kb_version r.build_seq prior_rows desired state aggregate).1 =
          (write_alias p kb_version r.build_seq true state.1 (prior_rows.get? wanted.phrase) wanted).1 := by
        unfold upserted
        rw [hwanted, hwanted_phrase]
      apply ih hnodup.2 (fun other hother => hphrase other (List.mem_cons_of_mem _ hother))
      · rw [hstep]
        exact h.write hinj hwf hprior (hwanted_phrase ▸ hvacant aggregate List.mem_cons_self)
      · intro other hother hnone id hid
        rw [hstep] at hid
        have hold : LiveAlias state.1 other.phrase id := by
          cases hget : prior_rows.get? wanted.phrase with
          | none =>
            rw [hget] at hid
            cases liveAlias_write_new hid with
            | inl hold => exact hold
            | inr hnew => exact absurd (hnew.1.trans hwanted_phrase) (hrest other hother)
          | some row =>
            rw [hget] at hid
            cases liveAlias_write_prior hid with
            | inl hold => exact hold
            | inr hrevived =>
              obtain ⟨-, hprior_id, old, hold, hold_id, hold_title⟩ := hrevived
              have htitle := h.titled _ (Dict.mem_of_get? hget) old hold (hold_id.trans hprior_id)
              rw [hold_title, Option.some.injEq] at htitle
              exact absurd (htitle.trans hwanted_phrase) (hrest other hother)
        exact hvacant other (List.mem_cons_of_mem _ hother) hnone id hold

/-- The rows the pass starts from: every live row is the prior row of its title. -/
theorem liveAlias_deduplicated (hwf : WellFormed p r) {title : String} {id : Uuid}
    (h : LiveAlias (retire_aliases r r.build_seq (duplicate_rows (alias_rows r r.build_seq))) title id) :
    ∃ row, (first_by_title (alias_rows r r.build_seq)).get? title = some row ∧ row.artifact_id = id := by
  have hempty : (([] : Dict String KnowledgeArtifact).map (·.1)).Nodup := List.nodup_nil
  have hkeys : ((first_by_title (alias_rows r r.build_seq)).map (·.1)).Nodup := by
    refine foldl_invariant (I := fun d : Dict String KnowledgeArtifact => (d.map (·.1)).Nodup) ?_ hempty
    intro d row _ hd
    split
    · exact Dict.nodup_setdefault hd
    · exact hd
  obtain ⟨⟨a, ha, htype, hlive, htitle, rfl⟩, hnot⟩ := liveAlias_retire h
  have hrow : a ∈ alias_rows r r.build_seq := by
    simp only [alias_rows, mem_sorted, List.mem_filter, Bool.and_eq_true, beq_iff_eq, revivable_iff]
    exact ⟨ha, htype, .inl hlive⟩
  have hkept : ∃ entry ∈ first_by_title (alias_rows r r.build_seq), entry.2.artifact_id = a.artifact_id := by
    by_contra hnone
    apply hnot
    rw [duplicate_rows, List.mem_map]
    refine ⟨a, List.mem_filter.mpr ⟨hrow, ?_⟩, rfl⟩
    rw [Bool.and_eq_true, Bool.not_eq_true', htitle, ← Bool.not_eq_true, List.contains_iff_mem, List.mem_map]
    exact ⟨rfl, hnone⟩
  obtain ⟨entry, hentry, hid⟩ := hkept
  obtain ⟨hin, hentry_title⟩ := mem_first_by_title hentry
  have hsame : entry.2 = a := hwf.artifact_eq (mem_alias_rows hin).1 ha hid
  rw [hsame, htitle, Option.some.injEq] at hentry_title
  have hget := Dict.get?_of_mem hkeys hentry
  rw [← hentry_title] at hget
  exact ⟨entry.2, hget, hid⟩

theorem settling_deduplicated (hwf : WellFormed p r) :
    Settling p (retire_aliases r r.build_seq (duplicate_rows (alias_rows r r.build_seq)))
      (first_by_title (alias_rows r r.build_seq))
      (retire_aliases r r.build_seq (duplicate_rows (alias_rows r r.build_seq))) := by
  refine ⟨.refl _, fun _ h => h, ?_, ?_, ?_⟩
  · intro entry hentry a ha hid
    obtain ⟨old, hold, hold_id, hold_title, -⟩ := mem_retire_aliases ha
    obtain ⟨hin, htitle⟩ := mem_first_by_title hentry
    have hsame : entry.2 = old := hwf.artifact_eq (mem_alias_rows hin).1 hold (hid.symm.trans hold_id.symm)
    rw [← hold_title, ← hsame, htitle]
  · intro title id row hget hid
    obtain ⟨found, hfound, hfound_id⟩ := liveAlias_deduplicated hwf hid
    rw [hget, Option.some.injEq] at hfound
    rw [hfound, hfound_id]
  · intro title id id' hid hid'
    obtain ⟨row, hrow, hrow_id⟩ := liveAlias_deduplicated hwf hid
    obtain ⟨row', hrow', hrow_id'⟩ := liveAlias_deduplicated hwf hid'
    rw [hrow, Option.some.injEq] at hrow'
    rw [← hrow_id, ← hrow_id', hrow']

theorem desired_alias_phrase {u : Unicode} {inputs : List MiningInput} {path_acls : Dict String (List String)}
    {path_artifacts : Dict String Uuid} {aggregate : AliasAggregate} {wanted : DesiredAlias}
    (h : wanted ∈ desired_alias u inputs path_acls path_artifacts aggregate) : wanted.phrase = aggregate.phrase := by
  simp only [desired_alias, Option.bind_eq_bind, Option.mem_def, Option.bind_eq_some_iff, Option.some.injEq] at h
  obtain ⟨first, -, anchor, -, rfl⟩ := h
  rfl

theorem oneLiveAlias_reconcile_artifacts (hinj : Function.Injective p.gen_random_uuid) (hwf : WellFormed p r)
    {aggregates : List AliasAggregate} (hnodup : (aggregates.map (·.phrase)).Nodup)
    (hphrase : ∀ aggregate ∈ aggregates, ∀ wanted ∈ desired aggregate, wanted.phrase = aggregate.phrase) :
    OneLiveAlias (reconcile_artifacts p (retire_aliases r r.build_seq (duplicate_rows (alias_rows r r.build_seq)))
      kb_version r.build_seq aggregates (first_by_title (alias_rows r r.build_seq)) desired).1 := by
  set retired := retire_aliases r r.build_seq (duplicate_rows (alias_rows r r.build_seq)) with hretired
  have honly : OnlyAliases p r retired := onlyAliases_retire_aliases r _
  have hvacant : ∀ aggregate ∈ aggregates, (first_by_title (alias_rows r r.build_seq)).get? aggregate.phrase = none →
      ∀ id, ¬ LiveAlias (retired, ([] : Dict String Uuid)).1 aggregate.phrase id := by
    intro aggregate _ hnone id hid
    obtain ⟨row, hrow, -⟩ := liveAlias_deduplicated hwf hid
    rw [hnone] at hrow
    cases hrow
  have hstart : Settling p retired (first_by_title (alias_rows r r.build_seq)) (retired, ([] : Dict String Uuid)).1 :=
    settling_deduplicated hwf
  have hupserted : Settling p retired (first_by_title (alias_rows r r.build_seq)) (aggregates.foldl
      (upserted p kb_version retired.build_seq (first_by_title (alias_rows r r.build_seq)) desired) (retired, [])).1 :=
    Settling.upserts hinj (honly.wellFormed hwf) (priorRows_alias_rows hwf) hnodup hphrase hstart hvacant
  exact hupserted.one.retire

/-- The document miner leaves one live row for each title, whatever it finds. -/
theorem oneLiveAlias_run_alias_miner (hinj : Function.Injective p.gen_random_uuid) (hwf : WellFormed p r) :
    OneLiveAlias (run_alias_miner p r kb_version r.build_seq) := by
  have hrows : OneLiveAlias (reconcile_aliases p r kb_version r.build_seq).1 :=
    oneLiveAlias_reconcile_artifacts hinj hwf (nodup_aggregates _) fun aggregate _ wanted hwanted =>
      desired_alias_phrase hwanted
  have hartifacts := (reconcile_edges_spec p (reconcile_aliases p r kb_version r.build_seq).1 kb_version
    (reconcile_aliases p r kb_version r.build_seq).2).1.artifacts
  rw [(reconcile_aliases_spec kb_version hwf hinj).1.build_seq] at hartifacts
  have hminer : (run_alias_miner p r kb_version r.build_seq).artifacts =
      (reconcile_aliases p r kb_version r.build_seq).1.artifacts := hartifacts
  unfold OneLiveAlias LiveAlias
  rw [hminer]
  exact hrows

end Documents

section Ledger

variable {p : Platform} {r mid : Registry} {kb_version : String}

/-- The ledger's writes, one phrase after another: an owned row is refreshed, and a new title is inserted. -/
theorem oneLiveAlias_ledger_writes {n : Nat} {owned : Dict String KnowledgeArtifact} {wanted : List DesiredAlias}
    (hnodup : (wanted.map (·.phrase)).Nodup) (hone : OneLiveAlias mid)
    (hvacant : ∀ desired ∈ wanted, owned.get? desired.phrase = none → ∀ id, ¬ LiveAlias mid desired.phrase id) :
    OneLiveAlias (wanted.foldl (fun mid desired =>
      (write_alias p kb_version n false mid (owned.get? desired.phrase) desired).1) mid) := by
  induction wanted generalizing mid with
  | nil => exact hone
  | cons desired wanted ih =>
    rw [List.map_cons, List.nodup_cons] at hnodup
    rw [List.foldl_cons]
    have hwrite : ∀ {title : String} {id : Uuid},
        LiveAlias (write_alias p kb_version n false mid (owned.get? desired.phrase) desired).1 title id →
        LiveAlias mid title id ∨ owned.get? desired.phrase = none ∧ title = desired.phrase ∧ id = mid.fresh p := by
      intro title id hid
      cases hget : owned.get? desired.phrase with
      | none =>
        rw [hget] at hid
        exact (liveAlias_write_new hid).imp_right fun hnew => ⟨rfl, hnew⟩
      | some row =>
        rw [hget] at hid
        cases liveAlias_write_prior hid with
        | inl hold => exact .inl hold
        | inr hrevived => cases hrevived.1
    apply ih hnodup.2
    · intro title id id' hid hid'
      cases hwrite hid with
      | inl hold =>
        cases hwrite hid' with
        | inl hold' => exact hone title id id' hold hold'
        | inr hnew' => exact absurd (hnew'.2.1 ▸ hold) (hvacant desired List.mem_cons_self hnew'.1 id)
      | inr hnew =>
        cases hwrite hid' with
        | inl hold' => exact absurd (hnew.2.1 ▸ hold') (hvacant desired List.mem_cons_self hnew.1 id')
        | inr hnew' => rw [hnew.2.2, hnew'.2.2]
    · intro other hother hnone id hid
      cases hwrite hid with
      | inl hold => exact hvacant other (List.mem_cons_of_mem _ hother) hnone id hold
      | inr hnew => exact hnodup.1 (hnew.2.1 ▸ List.mem_map_of_mem hother)

theorem oneLiveAlias_run_ledger_alias_miner {n : Nat} {events : List RetrievalEvent} {window_start : Timestamp}
    (hone : OneLiveAlias r) : OneLiveAlias (run_ledger_alias_miner p r kb_version n events window_start) := by
  have hvacant : ∀ desired ∈ ledger_wanted p.unicode r events window_start,
      (ledger_rows r).get? desired.phrase = none → ∀ id, ¬ LiveAlias r desired.phrase id := by
    rintro desired hdesired hnone id ⟨a, ha, htype, hlive, htitle, -⟩
    obtain ⟨group, -, hasked⟩ := List.mem_filterMap.mp hdesired
    apply (ledger_alias_phrase hasked).2 hnone
    simp only [alias_titles, List.mem_filterMap, List.mem_filter, Bool.and_eq_true, beq_iff_eq,
      Option.isNone_iff_eq_none]
    exact ⟨a, ⟨ha, htype, hlive⟩, htitle⟩
  exact (oneLiveAlias_ledger_writes (nodup_ledger_wanted r events window_start) hone hvacant).retire

end Ledger

section Builds

variable {p : Platform} {r : Registry} {kb_version : String}

/-- Neither miner disturbs the other's titles, and the document miner restores them. -/
theorem oneLiveAlias_mine (hinj : Function.Injective p.gen_random_uuid) (hwf : WellFormed p r)
    {miners : List AliasMiner} (hmines : AliasMiner.documents ∈ miners ∨ OneLiveAlias r) :
    OneLiveAlias (miners.foldl (mine p kb_version r.build_seq) r) ∧
      WellFormed p (miners.foldl (mine p kb_version r.build_seq) r) ∧
      (miners.foldl (mine p kb_version r.build_seq) r).build_seq = r.build_seq := by
  induction miners generalizing r with
  | nil =>
    cases hmines with
    | inl hnone => cases hnone
    | inr hone => exact ⟨hone, hwf, rfl⟩
  | cons miner miners ih =>
    rw [List.foldl_cons]
    cases miner with
    | documents =>
      have honly : OnlyAliases p r (run_alias_miner p r kb_version r.build_seq) :=
        (run_alias_miner_spec kb_version hwf hinj).1
      have hrest := ih (honly.wellFormed hwf) (.inr (oneLiveAlias_run_alias_miner hinj hwf))
      rw [honly.build_seq] at hrest
      exact hrest
    | ledger events window_start =>
      have honly : OnlyAliases p r (run_ledger_alias_miner p r kb_version r.build_seq events window_start) :=
        (run_ledger_alias_miner_spec kb_version events window_start hinj).1
      have hmines' : AliasMiner.documents ∈ miners ∨
          OneLiveAlias (run_ledger_alias_miner p r kb_version r.build_seq events window_start) := by
        cases hmines with
        | inl hin =>
          cases List.mem_cons.mp hin with
          | inl heq => cases heq
          | inr hin => exact .inl hin
        | inr hone => exact .inr (oneLiveAlias_run_ledger_alias_miner hone)
      have hrest := ih (honly.wellFormed hwf) hmines'
      rw [honly.build_seq] at hrest
      exact hrest

theorem oneAliasPerTitle_of_live (hwf : WellFormed p r) (hone : OneLiveAlias r) : OneAliasPerTitle r.build_seq r := by
  intro a ha b hb htype htype' hmember hmember' title htitle htitle'
  have hlive := (hwf.artifacts_stamped a ha).memberAt_iff_live.mp hmember
  have hlive' := (hwf.artifacts_stamped b hb).memberAt_iff_live.mp hmember'
  have hid := hone title _ _ ⟨a, ha, htype, hlive, htitle, rfl⟩ ⟨b, hb, htype', hlive', htitle', rfl⟩
  exact hwf.artifact_eq ha hb hid

/-- The registry a build with this order of its miners leaves. -/
theorem run_mined_settled (hinj : Function.Injective p.gen_random_uuid) (hwf : WellFormed p r)
    {turn : Build × List AliasMiner} (hmines : AliasMiner.documents ∈ turn.2) :
    WellFormed p (run_mined p r turn) ∧ TitlesSettled p r turn := by
  have hgood := sourcesGood_run (b := turn.1) hwf hinj
  unfold TitlesSettled run_mined
  dsimp only
  cases run_end p r turn.1 with
  | failed hsources hpasses hsame =>
    rw [hpasses]
    refine ⟨hgood.committed_wellFormed.of_sameCore hsame, ?_⟩
    intro hnone
    cases hnone
  | completed passes hsources hpasses hfinal hsame =>
    have hinvalidated : WellFormed p passes.invalidated := (hfinal.invalidates hgood.current_wellFormed).wellFormed
    obtain ⟨hone, hmined, -⟩ : OneLiveAlias (turn.2.foldl (mine p turn.1.kb_version passes.invalidated.build_seq)
          passes.invalidated) ∧
        WellFormed p (turn.2.foldl (mine p turn.1.kb_version passes.invalidated.build_seq) passes.invalidated) ∧ _ :=
      oneLiveAlias_mine hinj hinvalidated (.inl hmines)
    rw [hpasses]
    dsimp only
    refine ⟨hmined.of_sameCore (sameCore_finish_run _ _ _ _), ?_⟩
    intro _
    have htitles := oneAliasPerTitle_of_live hmined hone
    exact htitles

/-- The order of `finalize_graph`. -/
theorem run_mined_next (hinj : Function.Injective p.gen_random_uuid) (hwf : WellFormed p r) (b : Build) :
    SameCore (next p cached_generation r b)
      (run_mined p r (b, [.documents, .ledger b.retrieval_events b.window_start])) := by
  have hgood := sourcesGood_run (b := b) hwf hinj
  have hnext : next p cached_generation r b = (run p cached_generation r b).registry := rfl
  unfold run_mined
  dsimp only
  rw [hnext]
  cases run_end p r b with
  | failed hsources hpasses hsame =>
    rw [hpasses]
    exact .refl _
  | completed passes hsources hpasses hfinal hsame =>
    have horder : [AliasMiner.documents, .ledger b.retrieval_events b.window_start].foldl
        (mine p b.kb_version passes.invalidated.build_seq) passes.invalidated = passes.mined := by
      rw [hfinal.mined, hfinal.aliased, ← hfinal.invalidated_seq hgood.current_wellFormed]
      rfl
    rw [hpasses]
    dsimp only
    rw [horder]
    exact ⟨hsame.source_items.symm, hsame.artifacts.symm, hsame.edges.symm, hsame.build_seq.symm, hsame.uuids.symm⟩

/-- In every sequence of builds, in whatever order and however often the two miners take turns in each of them, a
    build that finalises leaves one alias row of each title in its version. -/
theorem one_alias_per_title (p : Platform) (hinj : Function.Injective p.gen_random_uuid)
    (turns : List (Build × List AliasMiner)) (hmines : ∀ turn ∈ turns, AliasMiner.documents ∈ turn.2) :
    Along (run_mined p) (TitlesSettled p) Registry.empty turns := by
  have hrun : Along (run_mined p) (fun _ _ => True) Registry.empty turns := .of_forall fun _ _ _ => trivial
  refine hrun.imp_of_invariant (I := WellFormed p) ?_ ?_ (wellFormed_empty p)
  · exact fun r turn hturn hwf _ => (run_mined_settled hinj hwf (hmines turn hturn)).1
  · exact fun r turn hturn hwf _ => (run_mined_settled hinj hwf (hmines turn hturn)).2

end Builds

/-- A guide is mined for its phrase, and the phrase searched for in vain; the build after it has lost the guide. -/
theorem one_alias_per_title_guide :
    let guide : Build :=
      { kb_version := "v"
        listing := [({ source_type := .github_doc, source_uri := "docs/payment-retries.md", source_version := "1"
                       repo := some "shop", path := some "docs/payment-retries.md" }, "How payments are retried.")]
        extract := fun fetched => some [⟨.summary, some "payment retries", fetched.text, 1, 1⟩] }
    let miss : RetrievalEvent :=
      { tool_name := "kb_search", status := "approved", returned_artifacts := 0, query_text := some "payment retries"
        created_at := 5, created_date := 1 }
    Along (run_mined .plain) (TitlesSettled .plain) Registry.empty
      [(guide, [.ledger [miss] 0, .documents, .ledger [miss] 0]), ({ guide with listing := [] }, [.documents])] := by
  intro guide miss
  apply one_alias_per_title .plain fun _ _ h => h
  intro turn hturn
  simp only [List.mem_cons, List.not_mem_nil, or_false] at hturn
  cases hturn with
  | inl hfirst => exact hfirst ▸ by simp
  | inr hsecond => exact hsecond ▸ by simp

end AgenticKb

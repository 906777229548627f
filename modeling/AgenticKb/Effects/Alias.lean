import AgenticKb.Effects.Invalidation

open AgenticKb.Lib

namespace AgenticKb

/-- What the alias passes do to a row: an alias is refreshed in place, any other artifact stays. -/
structure AliasRefreshed (n : Nat) (a a' : KnowledgeArtifact) : Prop where
  artifact_id : a'.artifact_id = a.artifact_id
  artifact_type : a'.artifact_type = a.artifact_type
  other : a.artifact_type ≠ .alias_reference → a' = a
  evolves : a.Evolves n a'.toLifespan

/-- A row version `n` may still keep: it is live, or version `n` itself ended it. -/
def Revivable (n : Nat) (l : Lifespan) : Prop := l.Live ∨ l.invalidated_at_seq = some n

instance (n : Nat) (l : Lifespan) : Decidable (Revivable n l) := inferInstanceAs (Decidable (_ ∨ _))

theorem revivable_iff {n : Nat} {l : Lifespan} : revivable n l.invalidated_at_seq = true ↔ Revivable n l := by
  simp [revivable, Revivable, Lifespan.Live]

theorem Revivable.evolves {n : Nat} {l l' : Lifespan} (h : Revivable n l) (hstep : l.Evolves n l') :
    Revivable n l' := by
  cases hstep with
  | keep => exact h
  | retire => exact .inr rfl
  | revive => exact .inl rfl

/-- An alias row of version `n`. -/
structure NewAlias (n : Nat) (a : KnowledgeArtifact) : Prop where
  artifact_type : a.artifact_type = .alias_reference
  valid_from_seq : a.valid_from_seq = n
  revivable : Revivable n a.toLifespan

namespace AliasRefreshed

variable {n : Nat} {a a' a'' : KnowledgeArtifact}

theorem refl (n : Nat) (a : KnowledgeArtifact) : AliasRefreshed n a a :=
  ⟨rfl, rfl, fun _ => rfl, .keep _⟩

theorem trans (h : AliasRefreshed n a a') (h' : AliasRefreshed n a' a'') : AliasRefreshed n a a'' :=
  ⟨h'.artifact_id.trans h.artifact_id, h'.artifact_type.trans h.artifact_type,
    fun hother => (h'.other (h.artifact_type ▸ hother)).trans (h.other hother),
    h.evolves.trans h'.evolves⟩

end AliasRefreshed

theorem NewAlias.refreshed {n : Nat} {a a' : KnowledgeArtifact} (h : NewAlias n a)
    (hstep : AliasRefreshed n a a') : NewAlias n a' :=
  ⟨hstep.artifact_type.trans h.artifact_type, hstep.evolves.valid_from.trans h.valid_from_seq,
    h.revivable.evolves hstep.evolves⟩

/-- A pass over the alias rows: of the artifacts only these were written. -/
structure OnlyAliases (p : Platform) (r r' : Registry) : Prop where
  artifacts : TableStep (AliasRefreshed r.build_seq) (NewAlias r.build_seq) r.artifacts r'.artifacts
  source_items : r'.source_items = r.source_items
  build_seq : r'.build_seq = r.build_seq
  wellFormed : WellFormed p r → WellFormed p r'

namespace OnlyAliases

variable {p : Platform} {r r' r'' : Registry}

theorem of_onlyEdges (h : OnlyEdges p r r') : OnlyAliases p r r' := by
  refine ⟨?_, h.source_items, h.build_seq, h.wellFormed⟩
  rw [h.artifacts]
  exact .refl fun a _ => .refl _ a

theorem refl (r : Registry) : OnlyAliases p r r := of_onlyEdges (.refl r)

theorem trans (h : OnlyAliases p r r') (h' : OnlyAliases p r' r'') : OnlyAliases p r r'' :=
  ⟨h.artifacts.trans (h.build_seq ▸ h'.artifacts) (fun _ _ _ => .trans) fun _ _ => .refreshed,
    h'.source_items.trans h.source_items, h'.build_seq.trans h.build_seq,
    fun hwf => h'.wellFormed (h.wellFormed hwf)⟩

/-- An artifact that is no alias is the same row before and after. -/
theorem mem_iff (h : OnlyAliases p r r') {a : KnowledgeArtifact}
    (hother : a.artifact_type ≠ .alias_reference) : a ∈ r'.artifacts ↔ a ∈ r.artifacts := by
  constructor
  · intro ha
    rcases h.artifacts.origin ha with ⟨a₀, ha₀, hstep⟩ | hnew
    · rwa [hstep.other (hstep.artifact_type ▸ hother)]
    · exact absurd hnew.artifact_type hother
  · intro ha
    obtain ⟨a', ha', hstep⟩ := h.artifacts.successor ha
    rwa [← hstep.other hother]

/-- A row that may be kept stays so. -/
theorem revivable (h : OnlyAliases p r r') (ids : Uuid → Prop)
    (hrev : ∀ a ∈ r.artifacts, ids a.artifact_id → Revivable r.build_seq a.toLifespan) :
    ∀ a ∈ r'.artifacts, ids a.artifact_id → Revivable r.build_seq a.toLifespan := by
  intro a ha hid
  rcases h.artifacts.origin ha with ⟨a₀, ha₀, hstep⟩ | hnew
  · exact (hrev a₀ ha₀ (hstep.artifact_id ▸ hid)).evolves hstep.evolves
  · exact hnew.revivable

end OnlyAliases

/-- An alias row stands under this id. -/
def AliasRow (r : Registry) (id : Uuid) : Prop :=
  ∃ a ∈ r.artifacts, a.artifact_id = id ∧ a.artifact_type = .alias_reference

theorem OnlyAliases.aliasRow {p : Platform} {r r' : Registry} (h : OnlyAliases p r r') {id : Uuid}
    (hrow : AliasRow r id) : AliasRow r' id := by
  obtain ⟨a, ha, hid, htype⟩ := hrow
  obtain ⟨a', ha', hstep⟩ := h.artifacts.successor ha
  exact ⟨a', ha', hstep.artifact_id.trans hid, hstep.artifact_type.trans htype⟩

section Writes

variable {p : Platform} {r r' : Registry} {kb_version : String}

/-- Alias rows refreshed in place. -/
private theorem onlyAliases_update {sel : KnowledgeArtifact → Bool}
    {set : KnowledgeArtifact → KnowledgeArtifact}
    (hsel : ∀ a ∈ r.artifacts, sel a = true → a.artifact_type = .alias_reference)
    (hid : ∀ a, (set a).artifact_id = a.artifact_id ∧ (set a).artifact_type = a.artifact_type)
    (hspan : ∀ a ∈ r.artifacts, sel a = true → a.Evolves r.build_seq (set a).toLifespan) :
    OnlyAliases p r { r with artifacts := update_where r.artifacts sel set } := by
  have hstep : TableStep (AliasRefreshed r.build_seq) (fun _ => False) r.artifacts
      (update_where r.artifacts sel set) :=
    .of_update_where (fun a ha hp => ⟨(hid a).1, (hid a).2, fun ho => absurd (hsel a ha hp) ho, hspan a ha hp⟩)
      fun a _ _ => .refl _ a
  refine ⟨hstep.mono (fun _ _ _ hk => hk) fun _ hf => hf.elim, rfl, rfl, fun hwf => hwf.set_artifacts ?_⟩
  exact hstep.mono (fun _ _ _ hk => ⟨hk.artifact_id, hk.evolves.restamped⟩) fun _ hf => hf

theorem onlyAliases_retire_aliases (r : Registry) (ids : List Uuid) :
    OnlyAliases p r (retire_aliases r r.build_seq ids) := by
  refine onlyAliases_update (fun a _ hp => ?_) (fun _ => ⟨rfl, rfl⟩) fun a _ hp => ?_
  · simp only [Bool.and_eq_true, beq_iff_eq] at hp
    exact hp.1.1
  · simp only [Bool.and_eq_true, Option.isNone_iff_eq_none] at hp
    exact .retire hp.2

theorem liveArtifact_retire_aliases {ids : List Uuid} {n : Nat} {id : Uuid} (hid : id ∉ ids)
    (h : LiveArtifact r id) : LiveArtifact (retire_aliases r n ids) id := by
  obtain ⟨a, ha, rfl, hlive⟩ := h
  refine ⟨a, List.mem_map.2 ⟨a, ha, ?_⟩, rfl, hlive⟩
  simp [hid]

/-- Writing one wanted alias. A row is revived only if version `n` may still keep it. -/
theorem onlyAliases_write_alias (hinj : Function.Injective p.gen_random_uuid) {revive : Bool}
    {prior : Option KnowledgeArtifact} {desired : DesiredAlias}
    (hrev : revive = true → ∀ row ∈ prior, ∀ a ∈ r.artifacts, a.artifact_id = row.artifact_id →
      Revivable r.build_seq a.toLifespan) :
    OnlyAliases p r (write_alias p kb_version r.build_seq revive r prior desired).1 := by
  unfold write_alias
  cases prior with
  | none =>
    refine ⟨.of_append (fun a _ => .refl _ a) ?_, rfl, rfl, fun hwf => ?_⟩
    · intro a ha
      simp only [List.mem_map] at ha
      obtain ⟨⟨row, id⟩, hmem, rfl⟩ := ha
      have hrow := (List.of_mem_zip hmem).1
      simp only [List.mem_singleton] at hrow
      subst hrow
      exact ⟨rfl, rfl, .inl rfl⟩
    · refine hwf.add_artifacts hinj ?_ ?_
      · simp
      · simp [Lifespan.IntroducedBy, Lifespan.Live]
  | some row =>
    dsimp only
    split
    · exact .refl r
    · refine onlyAliases_update (fun a _ hp => ?_) (fun _ => ⟨rfl, rfl⟩) fun a ha hp => ?_
      · simp only [Bool.and_eq_true, beq_iff_eq] at hp
        exact hp.1
      · simp only [Bool.and_eq_true, beq_iff_eq] at hp
        cases revive with
        | false => exact .keep _
        | true =>
          rcases hrev rfl row rfl a ha hp.2 with hlive | hend
          · have heq : a.toLifespan = { a.toLifespan with invalidated_at_seq := none } := by
              rw [Lifespan.mk.injEq]
              exact ⟨rfl, hlive⟩
            exact heq ▸ .keep _
          · exact .revive hend

/-- Writing an alias retires nothing. -/
theorem liveArtifact_write_alias {n : Nat} {revive : Bool} {prior : Option KnowledgeArtifact}
    {desired : DesiredAlias} {id : Uuid} (h : LiveArtifact r id) :
    LiveArtifact (write_alias p kb_version n revive r prior desired).1 id := by
  obtain ⟨a, ha, rfl, hlive⟩ := h
  unfold write_alias
  cases prior with
  | none => exact ⟨a, List.mem_append_left _ ha, rfl, hlive⟩
  | some row =>
    dsimp only
    split
    · exact ⟨a, ha, rfl, hlive⟩
    · refine ⟨_, List.mem_map_of_mem ha, ?_⟩
      dsimp only
      split
      · cases revive with
        | false => exact ⟨rfl, hlive⟩
        | true => exact ⟨rfl, rfl⟩
      · exact ⟨rfl, hlive⟩

theorem edges_write_alias {n : Nat} {revive : Bool} {prior : Option KnowledgeArtifact}
    {desired : DesiredAlias} :
    (write_alias p kb_version n revive r prior desired).1.edges = r.edges := by
  unfold write_alias
  cases prior with
  | none => rfl
  | some row =>
    dsimp only
    split <;> rfl

/-- The id a write answers with is that of a live row. -/
theorem liveArtifact_write_alias_id {n : Nat} {prior : Option KnowledgeArtifact} {desired : DesiredAlias}
    (hrow : ∀ row ∈ prior, AliasRow r row.artifact_id ∧ (row.Live → LiveArtifact r row.artifact_id)) :
    LiveArtifact (write_alias p kb_version n true r prior desired).1
      (write_alias p kb_version n true r prior desired).2 := by
  unfold write_alias
  cases prior with
  | none =>
    refine ⟨_, List.mem_append_right _ (List.mem_singleton_self _), ?_⟩
    exact ⟨rfl, rfl⟩
  | some row =>
    obtain ⟨⟨a, ha, hid, htype⟩, hlive⟩ := hrow row rfl
    dsimp only
    split
    · rename_i hsame
      simp only [DesiredAlias.same, Bool.and_eq_true, Option.isNone_iff_eq_none] at hsame
      exact hlive hsame.2
    · refine ⟨_, List.mem_map_of_mem ha, ?_⟩
      simp [hid, htype, Lifespan.Live]

/-- That id is the one of the row that stood for the phrase, or a fresh one. -/
theorem write_alias_id {n : Nat} {revive : Bool} {prior : Option KnowledgeArtifact}
    {desired : DesiredAlias} :
    (write_alias p kb_version n revive r prior desired).2 = (prior.map (·.artifact_id)).getD (r.fresh p) := by
  unfold write_alias
  cases prior with
  | none => rfl
  | some row =>
    dsimp only
    split <;> rfl

end Writes

section Prior

variable {r : Registry} {n : Nat}

theorem mem_alias_rows {a : KnowledgeArtifact} (h : a ∈ alias_rows r n) :
    a ∈ r.artifacts ∧ a.artifact_type = .alias_reference ∧ Revivable n a.toLifespan := by
  simpa only [alias_rows, mem_sorted, List.mem_filter, Bool.and_eq_true, beq_iff_eq, revivable_iff] using h

theorem mem_first_by_title {rows : List KnowledgeArtifact} {title : String} {row : KnowledgeArtifact}
    (h : (title, row) ∈ first_by_title rows) : row ∈ rows ∧ row.title = some title := by
  refine foldl_invariant (I := fun d : Dict String KnowledgeArtifact =>
    ∀ entry ∈ d, entry.2 ∈ rows ∧ entry.2.title = some entry.1) ?_ (by simp) (title, row) h
  intro d row hrow hd entry hentry
  split at hentry
  · rename_i title htitle
    rcases Dict.mem_setdefault hentry with hold | rfl
    · exact hd entry hold
    · exact ⟨hrow, htitle⟩
  · exact hd entry hentry

/-- The first row of a title is no duplicate. -/
theorem first_not_duplicate {rows : List KnowledgeArtifact} {entry : String × KnowledgeArtifact}
    (h : entry ∈ first_by_title rows) : entry.2.artifact_id ∉ duplicate_rows rows := by
  intro hdup
  simp only [duplicate_rows, List.mem_map, List.mem_filter, Bool.and_eq_true, Bool.not_eq_true',
    List.contains_eq_mem, decide_eq_false_iff_not] at hdup
  obtain ⟨row, ⟨-, -, hkept⟩, hid⟩ := hdup
  exact hkept ⟨entry, h, hid.symm⟩

end Prior

/-- What the rows that stand for the phrases have to be, at the state they are reconciled in. -/
structure PriorRows (r : Registry) (prior_rows : Dict String KnowledgeArtifact) : Prop where
  row : ∀ entry ∈ prior_rows, AliasRow r entry.2.artifact_id
  live : ∀ entry ∈ prior_rows, entry.2.Live → LiveArtifact r entry.2.artifact_id
  revivable : ∀ a ∈ r.artifacts, (∃ entry ∈ prior_rows, entry.2.artifact_id = a.artifact_id) →
    Revivable r.build_seq a.toLifespan
  /-- One row stands for one phrase. -/
  key : ∀ entry ∈ prior_rows, ∀ entry' ∈ prior_rows, entry.2.artifact_id = entry'.2.artifact_id →
    entry.1 = entry'.1

theorem PriorRows.next {p : Platform} {r r' : Registry} {prior_rows : Dict String KnowledgeArtifact}
    (h : PriorRows r prior_rows) (hstep : OnlyAliases p r r')
    (hlive : ∀ id, LiveArtifact r id → LiveArtifact r' id) : PriorRows r' prior_rows where
  row entry hentry := hstep.aliasRow (h.row entry hentry)
  live entry hentry hl := hlive _ (h.live entry hentry hl)
  revivable := by
    rw [hstep.build_seq]
    exact hstep.revivable (fun id => ∃ entry ∈ prior_rows, entry.2.artifact_id = id) h.revivable
  key := h.key

section Reconcile

variable {p : Platform} {r : Registry} {kb_version : String} {aggregates : List AliasAggregate}
  {prior_rows : Dict String KnowledgeArtifact} {desired : AliasAggregate → Option DesiredAlias}

/-- What the upserts keep, one aggregate after the other. -/
private structure Upserting (p : Platform) (r : Registry) (aggregates : List AliasAggregate)
    (prior_rows : Dict String KnowledgeArtifact) (state : Registry × Dict String Uuid) : Prop where
  only : OnlyAliases p r state.1
  edges : state.1.edges = r.edges
  live : ∀ id, LiveArtifact r id → LiveArtifact state.1 id
  alias_live : ∀ entry ∈ state.2, LiveArtifact state.1 entry.2
  /-- The id of a phrase is not one of the rows that stand for another. -/
  alias_phrase : ∀ entry ∈ state.2, (∃ aggregate ∈ aggregates, aggregate.phrase = entry.1) ∧
    ∀ prior ∈ prior_rows, prior.2.artifact_id = entry.2 → prior.1 = entry.1

private theorem upserting_step (hwf : WellFormed p r) (hinj : Function.Injective p.gen_random_uuid)
    (hprior : PriorRows r prior_rows) {state : Registry × Dict String Uuid} {aggregate : AliasAggregate}
    (haggregate : aggregate ∈ aggregates) (h : Upserting p r aggregates prior_rows state) :
    Upserting p r aggregates prior_rows
      (upserted p kb_version r.build_seq prior_rows desired state aggregate) := by
  unfold upserted
  cases hwanted : desired aggregate with
  | none => exact h
  | some wanted =>
    have hprior' := hprior.next h.only h.live
    have hmem : ∀ row ∈ prior_rows.get? aggregate.phrase, (aggregate.phrase, row) ∈ prior_rows :=
      fun row hrow => Dict.mem_of_get? hrow
    have honly : OnlyAliases p state.1 (write_alias p kb_version r.build_seq true state.1
        (prior_rows.get? aggregate.phrase) wanted).1 := by
      rw [← h.only.build_seq]
      exact onlyAliases_write_alias hinj fun _ row hrow a ha hid =>
        hprior'.revivable a ha ⟨_, hmem row hrow, hid.symm⟩
    have hlive : ∀ id, LiveArtifact state.1 id → LiveArtifact (write_alias p kb_version r.build_seq true
        state.1 (prior_rows.get? aggregate.phrase) wanted).1 id := fun _ => liveArtifact_write_alias
    refine ⟨h.only.trans honly, edges_write_alias.trans h.edges, fun id hid => hlive id (h.live id hid),
      ?_, ?_⟩
    · intro entry hentry
      rcases Dict.mem_set hentry with hold | rfl
      · exact hlive _ (h.alias_live entry hold)
      · exact liveArtifact_write_alias_id fun row hrow =>
          ⟨hprior'.row _ (hmem row hrow), hprior'.live _ (hmem row hrow)⟩
    · intro entry hentry
      rcases Dict.mem_set hentry with hold | rfl
      · exact h.alias_phrase entry hold
      · refine ⟨⟨aggregate, haggregate, rfl⟩, fun prior hp hid => ?_⟩
        rw [write_alias_id] at hid
        cases hget : prior_rows.get? aggregate.phrase with
        | some row =>
          rw [hget] at hid
          exact hprior.key prior hp _ (Dict.mem_of_get? hget) hid
        | none =>
          -- a fresh id stands for no row yet
          rw [hget] at hid
          obtain ⟨a, ha, hida, -⟩ := hprior'.row prior hp
          obtain ⟨i, hi, hdrawn⟩ := (h.only.wellFormed hwf).artifact_ids_drawn a ha
          have heq : i = state.1.uuids := hinj (hdrawn.trans (hida.trans hid))
          omega

private theorem upserting_all (kb_version : String) (aggregates : List AliasAggregate)
    (desired : AliasAggregate → Option DesiredAlias) (hwf : WellFormed p r) (hinj : Function.Injective p.gen_random_uuid)
    (hprior : PriorRows r prior_rows) :
    Upserting p r aggregates prior_rows
      (aggregates.foldl (upserted p kb_version r.build_seq prior_rows desired) (r, [])) :=
  foldl_invariant (fun _ _ hagg h => upserting_step hwf hinj hprior hagg h)
    ⟨.refl r, rfl, fun _ h => h, by simp, by simp⟩

theorem reconcile_artifacts_spec (kb_version : String) (aggregates : List AliasAggregate)
    (desired : AliasAggregate → Option DesiredAlias) (hwf : WellFormed p r) (hinj : Function.Injective p.gen_random_uuid)
    (hprior : PriorRows r prior_rows) :
    let result := reconcile_artifacts p r kb_version r.build_seq aggregates prior_rows desired
    OnlyAliases p r result.1 ∧ result.1.edges = r.edges ∧
      (∀ id, id ∉ stale_aliases aggregates prior_rows → LiveArtifact r id → LiveArtifact result.1 id) ∧
      ∀ entry ∈ result.2, LiveArtifact result.1 entry.2 := by
  have h := upserting_all kb_version aggregates desired hwf hinj hprior
  have hresult : reconcile_artifacts p r kb_version r.build_seq aggregates prior_rows desired =
      (retire_aliases (aggregates.foldl (upserted p kb_version r.build_seq prior_rows desired) (r, [])).1
        r.build_seq (stale_aliases aggregates prior_rows),
        (aggregates.foldl (upserted p kb_version r.build_seq prior_rows desired) (r, [])).2) := rfl
  rw [hresult]
  have hretire := onlyAliases_retire_aliases (p := p)
    (aggregates.foldl (upserted p kb_version r.build_seq prior_rows desired) (r, [])).1
    (stale_aliases aggregates prior_rows)
  rw [h.only.build_seq] at hretire
  refine ⟨h.only.trans hretire, h.edges,
    fun id hid hlive => liveArtifact_retire_aliases hid (h.live id hlive), ?_⟩
  intro entry hentry
  refine liveArtifact_retire_aliases (fun hstale => ?_) (h.alias_live entry hentry)
  obtain ⟨⟨aggregate, hagg, hphrase⟩, hkey⟩ := h.alias_phrase entry hentry
  simp only [stale_aliases, List.mem_map, List.mem_filter, Bool.and_eq_true, Bool.not_eq_true',
    List.any_eq_false, beq_iff_eq] at hstale
  obtain ⟨prior, ⟨hp, ⟨hnone, -⟩, -⟩, hid⟩ := hstale
  exact hnone aggregate hagg (hphrase.trans (hkey prior hp hid).symm)

end Reconcile

section Targets

variable {r : Registry}

private theorem mem_prefer_target {best : Dict String (Nat × Uuid)} {path : String} {rank : Nat}
    {id : Uuid} {entry : String × Nat × Uuid} (h : entry ∈ prefer_target best path rank id) :
    entry ∈ best ∨ entry.2.2 = id := by
  unfold prefer_target at h
  split at h
  · exact (Dict.mem_set h).imp_right fun heq => by simp [heq]
  · split at h
    · exact (Dict.mem_set h).imp_right fun heq => by simp [heq]
    · exact .inl h

/-- A path resolves to a live artifact that is no alias. -/
theorem resolve_targets_live {paths : List String} {path_repos : Dict String (List (Option String))}
    {entry : String × Uuid} (h : entry ∈ (resolve_targets r paths path_repos).2) :
    ∃ a ∈ r.artifacts, a.artifact_id = entry.2 ∧ a.Live ∧ a.artifact_type ≠ .alias_reference := by
  simp only [resolve_targets, List.mem_map] at h
  obtain ⟨best, hbest, rfl⟩ := h
  refine foldl_invariant (I := fun d : Dict String (Nat × Uuid) => ∀ entry ∈ d, ∃ a ∈ r.artifacts,
    a.artifact_id = entry.2.2 ∧ a.Live ∧ a.artifact_type ≠ .alias_reference) ?_ (by simp) best hbest
  intro d a ha hd entry hentry
  split at hentry
  · split at hentry
    · rename_i hp
      simp only [Bool.and_eq_true, Option.isNone_iff_eq_none, bne_iff_ne, ne_eq] at hp
      rcases mem_prefer_target hentry with hold | hid
      · exact hd entry hold
      · exact ⟨a, ha, hid.symm, hp.1, hp.2⟩
    · exact hd entry hentry
  · exact hd entry hentry

/-- An asked-for edge leads from the alias of a phrase to what a path resolves to. -/
theorem mem_desired_edges {aggregates : List AliasAggregate} {alias_ids path_artifacts : Dict String Uuid}
    {entry : (Uuid × Uuid) × DesiredEdge} (h : entry ∈ desired_edges aggregates alias_ids path_artifacts) :
    (∃ row ∈ alias_ids, row.2 = entry.1.1) ∧ ∃ target ∈ path_artifacts, target.2 = entry.1.2 := by
  refine foldl_invariant (I := fun d : Dict (Uuid × Uuid) DesiredEdge => ∀ entry ∈ d,
    (∃ row ∈ alias_ids, row.2 = entry.1.1) ∧ ∃ target ∈ path_artifacts, target.2 = entry.1.2)
    ?_ (by simp) entry h
  intro d aggregate _ hd
  split
  · exact hd
  · rename_i alias_id hid
    refine foldl_invariant (I := fun d : Dict (Uuid × Uuid) DesiredEdge => ∀ entry ∈ d,
      (∃ row ∈ alias_ids, row.2 = entry.1.1) ∧ ∃ target ∈ path_artifacts, target.2 = entry.1.2) ?_ hd
    intro d target _ hd
    split
    · exact hd
    · rename_i target_id htarget
      intro entry hentry
      rcases Dict.mem_set hentry with hold | rfl
      · exact hd entry hold
      · exact ⟨⟨_, Dict.mem_of_get? hid, rfl⟩, ⟨_, Dict.mem_of_get? htarget, rfl⟩⟩

end Targets

/-- What reconciling the alias edges does to an edge. -/
structure AliasEdgeKept (n : Nat) (desired : Dict (Uuid × Uuid) DesiredEdge)
    (kept : Dict (Uuid × Uuid) Uuid) (e e' : KnowledgeEdge) : Prop where
  edge_id : e'.edge_id = e.edge_id
  key : e'.key = e.key
  source : e'.source = e.source
  other : is_alias_edge e = false → e' = e
  evolves : e.Evolves n e'.toLifespan
  wanted : is_alias_edge e = true → e'.Live → ∃ wanted, desired.get? e.pair = some wanted
  evidence : e'.evidence = e.evidence ∨ is_alias_edge e = true ∧ Revivable n e.toLifespan ∧ ∃ wanted,
    desired.get? e.pair = some wanted ∧ kept.get? e.pair = some e.edge_id ∧
      e'.evidence = .object wanted.evidence

/-- An alias edge of version `n`, asked for by a phrase. -/
structure AliasEdgeNew (n : Nat) (desired : Dict (Uuid × Uuid) DesiredEdge) (e : KnowledgeEdge) :
    Prop where
  introduced : e.IntroducedBy n
  alias_edge : is_alias_edge e = true
  wanted : ∃ entry ∈ desired, e.pair = entry.1

section Edges

variable {p : Platform} {r : Registry} {kb_version : String} {desired : Dict (Uuid × Uuid) DesiredEdge}
  {kept : Dict (Uuid × Uuid) Uuid}

private theorem evolves_revive {n : Nat} {l : Lifespan} (h : Revivable n l) :
    l.Evolves n { l with invalidated_at_seq := none } := by
  rcases h with hlive | hend
  · have heq : l = { l with invalidated_at_seq := none } := by
      rw [Lifespan.mk.injEq]
      exact ⟨rfl, hlive⟩
    exact heq ▸ .keep _
  · exact .revive hend

/-- One edge of the miner, as it is refreshed or retired. -/
private theorem aliasEdgeKept_reconcile_edge {n : Nat} {e : KnowledgeEdge} (halias : is_alias_edge e = true)
    (hrev : Revivable n e.toLifespan) :
    AliasEdgeKept n desired kept e (reconcile_edge kb_version n desired kept e) := by
  have hretired : AliasEdgeKept n desired kept e
      (if e.invalidated_at_seq.isNone then { e with invalidated_at_seq := some n } else e) := by
    split
    · rename_i hlive
      refine ⟨rfl, rfl, rfl, fun ho => absurd halias (by simp [ho]), .retire (Option.isNone_iff_eq_none.1 hlive), ?_, .inl rfl⟩
      exact fun _ hlive => absurd (show some n = none from hlive) (by simp)
    · rename_i hended
      exact ⟨rfl, rfl, rfl, fun _ => rfl, .keep _, fun _ hlive => absurd (Option.isNone_iff_eq_none.2 hlive) hended,
        .inl rfl⟩
  unfold reconcile_edge
  split
  · rename_i wanted hwanted
    split
    · rename_i hkept
      simp only [beq_iff_eq] at hkept
      split
      · exact ⟨rfl, rfl, rfl, fun _ => rfl, .keep _, fun _ _ => ⟨wanted, hwanted⟩, .inl rfl⟩
      · exact ⟨rfl, rfl, rfl, fun ho => absurd halias (by simp [ho]), evolves_revive hrev,
          fun _ _ => ⟨wanted, hwanted⟩, .inr ⟨halias, hrev, wanted, hwanted, hkept, rfl⟩⟩
    · exact { hretired with wanted := fun _ _ => ⟨wanted, hwanted⟩ }
  · exact hretired

/-- The edges are rewritten in place, then the missing ones are added. -/
theorem reconcile_edges_spec (p : Platform) (r : Registry) (kb_version : String)
    (desired : Dict (Uuid × Uuid) DesiredEdge) :
    let result := reconcile_edges p r kb_version r.build_seq desired
    OnlyEdges p r result ∧
      TableStep
        (AliasEdgeKept r.build_seq desired (kept_alias_edges (existing_alias_edges r r.build_seq) desired))
        (AliasEdgeNew r.build_seq desired) r.edges result.edges := by
  set kept := kept_alias_edges (existing_alias_edges r r.build_seq) desired with hkept
  have hrewrite : TableStep (AliasEdgeKept r.build_seq desired kept) (AliasEdgeNew r.build_seq desired)
      r.edges (update_where r.edges
        (fun e => is_alias_edge e && revivable r.build_seq e.invalidated_at_seq)
        (reconcile_edge kb_version r.build_seq desired kept)) := by
    refine .of_update_where (fun e _ hp => ?_) fun e _ hp => ?_
    · simp only [Bool.and_eq_true, revivable_iff] at hp
      exact aliasEdgeKept_reconcile_edge hp.1 hp.2
    · refine ⟨rfl, rfl, rfl, fun _ => rfl, .keep _, fun halias hlive => ?_, .inl rfl⟩
      have hrev := revivable_iff.2 (.inl hlive : Revivable r.build_seq e.toLifespan)
      simp [halias, hrev] at hp
  have hwell : ∀ {edges : List KnowledgeEdge},
      TableStep (AliasEdgeKept r.build_seq desired kept) (AliasEdgeNew r.build_seq desired) r.edges edges →
      WellFormed p r → WellFormed p { r with edges } := fun hstep hwf =>
    hwf.set_edges (hstep.mono (fun _ _ _ hk => hk.evolves.restamped) fun _ ha => ha.introduced)
  unfold reconcile_edges
  rw [← hkept]
  dsimp only
  refine foldl_invariant (I := fun result : Registry => OnlyEdges p r result ∧
    TableStep (AliasEdgeKept r.build_seq desired kept) (AliasEdgeNew r.build_seq desired) r.edges
      result.edges) ?_ ⟨⟨rfl, rfl, rfl, hwell hrewrite⟩, hrewrite⟩
  rintro mid ⟨⟨from_id, to_id⟩, wanted⟩ hmem ⟨honly, hstep⟩
  simp only [mem_sorted, List.mem_filter] at hmem
  refine ⟨honly.trans ⟨rfl, rfl, rfl, fun hwf => hwf.add_edge fun _ => ⟨honly.build_seq.symm, rfl⟩⟩, ?_⟩
  refine hstep.append fun e he => ?_
  rw [List.mem_singleton.1 he]
  exact ⟨⟨rfl, rfl⟩, rfl, _, hmem.1, rfl⟩

end Edges

section Miner

variable {p : Platform} {r : Registry} {kb_version : String}

/-- The rows the alias pass retires: those beyond the first of a title, and those no longer mined. -/
def aliases_retired (p : Platform) (r : Registry) (n : Nat) : List Uuid :=
  let rows := alias_rows r n
  duplicate_rows rows ++
    stale_aliases (mined_aggregates p.unicode (load_mining_inputs p r) (first_by_title rows)) (first_by_title rows)

theorem priorRows_alias_rows (hwf : WellFormed p r) :
    PriorRows (retire_aliases r r.build_seq (duplicate_rows (alias_rows r r.build_seq)))
      (first_by_title (alias_rows r r.build_seq)) := by
  have honly := onlyAliases_retire_aliases (p := p) r (duplicate_rows (alias_rows r r.build_seq))
  have hmem : ∀ entry ∈ first_by_title (alias_rows r r.build_seq), entry.2 ∈ r.artifacts ∧
      entry.2.artifact_type = .alias_reference ∧ Revivable r.build_seq entry.2.toLifespan :=
    fun entry hentry => mem_alias_rows (mem_first_by_title hentry).1
  refine ⟨fun entry hentry => ?_, fun entry hentry hlive => ?_, ?_, ?_⟩
  · obtain ⟨ha, htype, -⟩ := hmem entry hentry
    exact honly.aliasRow ⟨entry.2, ha, rfl, htype⟩
  · exact liveArtifact_retire_aliases (first_not_duplicate hentry) ⟨entry.2, (hmem entry hentry).1, rfl, hlive⟩
  · rw [honly.build_seq]
    refine honly.revivable (fun id =>
      ∃ entry ∈ first_by_title (alias_rows r r.build_seq), entry.2.artifact_id = id) ?_
    rintro a ha ⟨entry, hentry, hid⟩
    obtain ⟨hrow, -, hrev⟩ := hmem entry hentry
    exact hwf.artifact_eq hrow ha hid ▸ hrev
  · intro entry hentry entry' hentry' hid
    have heq := hwf.artifact_eq (hmem entry hentry).1 (hmem entry' hentry').1 hid
    have htitle := (mem_first_by_title hentry).2
    rw [heq, (mem_first_by_title hentry').2] at htitle
    exact (Option.some.inj htitle).symm

/-- The alias rows before the edges: every edge asked for has live ends. -/
theorem reconcile_aliases_spec (kb_version : String) (hwf : WellFormed p r) (hinj : Function.Injective p.gen_random_uuid) :
    let result := reconcile_aliases p r kb_version r.build_seq
    OnlyAliases p r result.1 ∧ result.1.edges = r.edges ∧
      (∀ id, id ∉ aliases_retired p r r.build_seq → LiveArtifact r id → LiveArtifact result.1 id) ∧
      ∀ entry ∈ result.2, LiveArtifact result.1 entry.1.1 ∧ LiveArtifact result.1 entry.1.2 := by
  set rows := alias_rows r r.build_seq with hrows
  set retired := retire_aliases r r.build_seq (duplicate_rows rows) with hretired
  have hretire : OnlyAliases p r retired := onlyAliases_retire_aliases r (duplicate_rows rows)
  have hprior : PriorRows retired (first_by_title rows) := priorRows_alias_rows hwf
  have hspec := fun desired => reconcile_artifacts_spec kb_version
    (mined_aggregates p.unicode (load_mining_inputs p r) (first_by_title rows)) desired
    (hretire.wellFormed hwf) hinj hprior
  rw [hretire.build_seq] at hspec
  unfold reconcile_aliases
  dsimp only
  rw [← hrows, ← hretired]
  obtain ⟨honly, hedges, hlive, halias⟩ := hspec _
  refine ⟨hretire.trans honly, hedges, fun id hid hl => ?_, fun entry hentry => ?_⟩
  · simp only [aliases_retired, List.mem_append, not_or] at hid
    exact hlive id hid.2 (liveArtifact_retire_aliases hid.1 hl)
  · obtain ⟨⟨row, hrow, hfrom⟩, target, htarget, hto⟩ := mem_desired_edges hentry
    obtain ⟨a, ha, hid, hl, hother⟩ := resolve_targets_live htarget
    exact ⟨hfrom ▸ halias row hrow, a, (honly.mem_iff hother).2 ha, hid.trans hto, hl⟩

/-- The alias pass: the rows it keeps stay live, and its edges lead between live rows. -/
theorem run_alias_miner_spec (kb_version : String) (hwf : WellFormed p r) (hinj : Function.Injective p.gen_random_uuid) :
    let result := run_alias_miner p r kb_version r.build_seq
    let desired := (reconcile_aliases p r kb_version r.build_seq).2
    OnlyAliases p r result ∧
      (∀ id, id ∉ aliases_retired p r r.build_seq → LiveArtifact r id → LiveArtifact result id) ∧
      TableStep
        (AliasEdgeKept r.build_seq desired (kept_alias_edges (existing_alias_edges r r.build_seq) desired))
        (AliasEdgeNew r.build_seq desired) r.edges result.edges ∧
      ∀ entry ∈ desired, LiveArtifact result entry.1.1 ∧ LiveArtifact result entry.1.2 := by
  obtain ⟨honly, hedges, hlive, hdesired⟩ := reconcile_aliases_spec kb_version hwf hinj
  intro result desired
  obtain ⟨hframe, hstep⟩ := reconcile_edges_spec p (reconcile_aliases p r kb_version r.build_seq).1 kb_version
    desired
  rw [honly.build_seq] at hframe hstep
  have hexisting : existing_alias_edges (reconcile_aliases p r kb_version r.build_seq).1 r.build_seq =
      existing_alias_edges r r.build_seq := by
    unfold existing_alias_edges
    rw [hedges]
  rw [hexisting, hedges] at hstep
  refine ⟨honly.trans (.of_onlyEdges hframe), fun id hid hl => hframe.liveArtifact.2 (hlive id hid hl), hstep, ?_⟩
  intro entry hentry
  exact ⟨hframe.liveArtifact.2 (hdesired entry hentry).1, hframe.liveArtifact.2 (hdesired entry hentry).2⟩

/-- The rows the ledger pass retires. -/
def ledger_retired (p : Platform) (r : Registry) (events : List RetrievalEvent)
    (window_start : Timestamp) : List Uuid :=
  stale_ledger_aliases (ledger_wanted p.unicode r events window_start) (ledger_rows r)

/-- The ledger's writes, by induction on the aliases already written; none is revived. -/
private theorem write_ledger_aliases (r : Registry) (kb_version : String)
    (hinj : Function.Injective p.gen_random_uuid)
    (owned : Dict String KnowledgeArtifact) (wanted : List DesiredAlias) :
    let result := wanted.foldl (fun mid desired =>
      (write_alias p kb_version r.build_seq false mid (owned.get? desired.phrase) desired).1) r
    OnlyAliases p r result ∧ result.edges = r.edges ∧ ∀ id, LiveArtifact r id → LiveArtifact result id := by
  refine foldl_invariant (I := fun mid : Registry => OnlyAliases p r mid ∧ mid.edges = r.edges ∧
    ∀ id, LiveArtifact r id → LiveArtifact mid id) ?_ ⟨.refl r, rfl, fun _ h => h⟩
  rintro mid desired - ⟨honly, hedges, hlive⟩
  refine ⟨honly.trans ?_, edges_write_alias.trans hedges,
    fun id hid => liveArtifact_write_alias (hlive id hid)⟩
  rw [← honly.build_seq]
  exact onlyAliases_write_alias hinj (by simp)

theorem run_ledger_alias_miner_spec (kb_version : String) (events : List RetrievalEvent)
    (window_start : Timestamp) (hinj : Function.Injective p.gen_random_uuid) :
    let result := run_ledger_alias_miner p r kb_version r.build_seq events window_start
    OnlyAliases p r result ∧ result.edges = r.edges ∧
      ∀ id, id ∉ ledger_retired p r events window_start → LiveArtifact r id → LiveArtifact result id := by
  obtain ⟨honly, hedges, hlive⟩ := write_ledger_aliases r kb_version hinj
    (ledger_rows r) (ledger_wanted p.unicode r events window_start)
  have hretire : ∀ mid, OnlyAliases p r mid →
      OnlyAliases p r (retire_aliases mid r.build_seq (ledger_retired p r events window_start)) :=
    fun mid hmid => hmid.trans (hmid.build_seq ▸ onlyAliases_retire_aliases mid _)
  exact ⟨hretire _ honly, hedges, fun id hid hl => liveArtifact_retire_aliases hid (hlive id hl)⟩

end Miner

end AgenticKb

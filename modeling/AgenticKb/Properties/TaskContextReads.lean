import AgenticKb.Properties.GraphReads
import AgenticKb.Properties.ResponseTrim

open AgenticKb.Lib

namespace AgenticKb.ContextBroker

section Disclosure

/-- Of the rows a response may name, each thing it says of an artifact is one's. -/
structure NamesRows (p : Platform) (rows : List ArtifactRow) (response : GetTaskContextResponse) : Prop where
  entities : ∀ e ∈ response.resolved_scope.entities, ∃ row ∈ rows, ∃ source tier, e = entity row source tier
  paths : ∀ path ∈ response.referenced_paths, ∃ row ∈ rows, path = readable_path row.source_uri
  neighbors : ∀ wire ∈ response.blast_radius.callers ++ response.blast_radius.callees ++ response.blast_radius.tests,
    (∃ row ∈ rows, wire.entity_id = row.artifact_id ∧ wire.symbol = symbol_of row ∧
      response.referenced_paths[wire.path_ref]? = some (readable_path row.source_uri)) ∧
    ∀ caveat ∈ wire.caveat, caveat = unresolved_call ∨
      ∃ row ∈ rows, caveat = uncorroborated_call (readable_path row.source_uri)
  conventions : ∀ c ∈ response.conventions, ∃ row ∈ rows, convention row = some c
  prior_changes : ∀ c ∈ response.similar_prior_changes, ∃ row ∈ rows, prior_change p row = some c

/-- The id of one of the rows. -/
def NamedIn (rows : List ArtifactRow) (id : Uuid) : Prop := ∃ row ∈ rows, row.artifact_id = id

/-- What a candidate is for: a hint, of which the candidates are all rows, or an alias among the rows. -/
def CandidateNamed (rows : List ArtifactRow) (task : String) (c : AmbiguousCandidate) : Prop :=
  (∀ id ∈ c.candidates, NamedIn rows id) ∨
    ∃ row ∈ rows, row.artifact_type = .alias_reference ∧ c.alias_text = nonempty_or row.title task

/-- And each id in it is one's, but for what the aliases among the rows have for targets. -/
structure OnlyRowsButTargets (p : Platform) (rows : List ArtifactRow) (task : String)
    (response : GetTaskContextResponse) : Prop extends NamesRows p rows response where
  candidates : ∀ c ∈ response.resolved_scope.ambiguous_candidates, CandidateNamed rows task c
  evidence : ∀ id ∈ response.evidence_ids, NamedIn rows id ∨
    ∃ c ∈ response.resolved_scope.ambiguous_candidates, id ∈ c.candidates

end Disclosure

section Scope

variable {deps : TaskContextDeps} {db : Database} {ctx : TaskContextCtx}

/-- What a resolution names. -/
structure ScopeNamed (rows : List ArtifactRow) (task : String) (scope : ScopeResolution) : Prop where
  entities : ∀ e ∈ scope.entities, ∃ row ∈ rows, ∃ source tier, e = entity row source tier
  ambiguous : ∀ c ∈ scope.ambiguous, CandidateNamed rows task c

theorem scopeNamed_nil (rows : List ArtifactRow) (task : String) (open_questions : List String) :
    ScopeNamed rows task { open_questions } :=
  ⟨fun _ h => absurd h List.not_mem_nil, fun _ h => absurd h List.not_mem_nil⟩

theorem scopeNamed_entity {rows : List ArtifactRow} {row : ArtifactRow} (hrow : row ∈ rows) (task : String)
    (source : ResolutionSource) (tier : ConfidenceTier) : ScopeNamed rows task { entities := [entity row source tier] } := by
  refine ⟨fun e he => ?_, fun _ h => absurd h List.not_mem_nil⟩
  rw [List.mem_singleton] at he
  exact ⟨row, hrow, source, tier, he⟩

theorem scopeNamed_candidate {rows : List ArtifactRow} {task : String} {c : AmbiguousCandidate}
    (h : CandidateNamed rows task c) (open_questions : List String) :
    ScopeNamed rows task { ambiguous := [c], open_questions } := by
  refine ⟨fun _ h => absurd h List.not_mem_nil, fun c' hc' => ?_⟩
  rw [List.mem_singleton.1 hc']
  exact h

/-- A candidate is what it was made of. -/
theorem ambiguous_candidate_some {alias_text reason : String} {ids : List Uuid} {c : AmbiguousCandidate}
    (h : ambiguous_candidate alias_text ids reason = some c) : c.alias_text = alias_text ∧ c.candidates = ids := by
  unfold ambiguous_candidate at h
  split at h
  · obtain rfl := Option.some.inj h
    exact ⟨rfl, rfl⟩
  · cases h

/-- The rows of a query that the requester may see. -/
theorem filter_fetch_artifacts (p : Platform) (db : Database) (ids : List Uuid) (build_seq : Nat) (requester : Requester) :
    filter_artifacts requester (fetch_artifacts p db ids build_seq) =
      (visible_rows p db build_seq requester).filter fun row => ids.contains row.artifact_id := by
  rw [filter_artifacts, fetch_artifacts, visible_rows, filter_artifacts, List.filter_comm]

/-- A hit hydrated is a row the requester may see. -/
theorem mem_search_rows {query : String} {top : Nat} {row : ArtifactRow}
    (h : row ∈ (search_rows deps db ctx query top).1) :
    row ∈ visible_rows deps.platform db ctx.build_seq ctx.requester := by
  rw [search_rows, mem_sorted, filter_fetch_artifacts] at h
  exact List.mem_of_mem_filter h

/-- What is found for a hint is one row, or a choice of rows. -/
theorem scopeNamed_found {rows found : List ArtifactRow} (hfound : ∀ row ∈ found, row ∈ rows) {task alias_text reason : String}
    {ids : List Uuid} (hids : ∀ id ∈ ids, NamedIn found id) {open_questions : List String} {scope : ScopeResolution}
    (h : (ambiguous_candidate alias_text ids reason).bind (fun candidate =>
      some ({ ambiguous := [candidate], open_questions } : ScopeResolution)) = some scope) : ScopeNamed rows task scope := by
  obtain ⟨c, hc, hscope⟩ := Option.bind_eq_some_iff.1 h
  obtain rfl := Option.some.inj hscope
  apply scopeNamed_candidate
  left
  intro id hid
  rw [(ambiguous_candidate_some hc).2] at hid
  obtain ⟨row, hrow, heq⟩ := hids id hid
  exact ⟨row, hfound row hrow, heq⟩

theorem scopeNamed_resolve_symbol {symbol : String} {scope : ScopeResolution}
    (h : resolve_symbol deps db ctx symbol = some scope) :
    ScopeNamed (visible_rows deps.platform db ctx.build_seq ctx.requester) ctx.request.task_description scope := by
  have hfound : ∀ row ∈ (search_rows deps db ctx symbol SEARCH_TOP).1.filter (fun row =>
      SYMBOL_TYPES.contains row.artifact_type && rstrip_parens (row.title.getD "") == symbol),
      row ∈ visible_rows deps.platform db ctx.build_seq ctx.requester :=
    fun row hrow => mem_search_rows (List.mem_of_mem_filter hrow)
  unfold resolve_symbol at h
  dsimp only at h
  split at h
  · obtain rfl := Option.some.inj h
    exact scopeNamed_nil _ _ _
  · rename_i row hone
    obtain rfl := Option.some.inj h
    rw [hone] at hfound
    exact scopeNamed_entity (hfound row (List.mem_singleton_self row)) _ _ _
  · apply scopeNamed_found hfound _ h
    intro id hid
    obtain ⟨row, hrow, rfl⟩ := List.mem_map.1 hid
    exact ⟨row, hrow, rfl⟩

theorem mem_matched_paths {path : String} {rows : List ArtifactRow} {entry : String × ArtifactRow}
    (h : entry ∈ matched_paths path rows) : entry.2 ∈ rows := by
  have hkept : ∀ entry ∈ matched_paths path rows, entry.2 ∈ rows := by
    unfold matched_paths
    apply foldl_invariant (I := fun matched : Dict String ArtifactRow => ∀ entry ∈ matched, entry.2 ∈ rows)
    · intro matched row hrow hmatched
      have hset : ∀ entry ∈ matched.set (readable_path row.source_uri) row, entry.2 ∈ rows := by
        intro entry hentry
        cases Dict.mem_set hentry with
        | inl hold => exact hmatched entry hold
        | inr hnew => exact hnew ▸ hrow
      dsimp only
      split
      · split
        · exact hset
        · split
          · exact hset
          · exact hmatched
      · exact hmatched
    · exact fun _ h => absurd h List.not_mem_nil
  exact hkept entry h

theorem scopeNamed_resolve_file {path : String} {scope : ScopeResolution} (h : resolve_file deps db ctx path = some scope) :
    ScopeNamed (visible_rows deps.platform db ctx.build_seq ctx.requester) ctx.request.task_description scope := by
  have hfound : ∀ row ∈ (matched_paths path (search_rows deps db ctx (basename path) SEARCH_TOP).1).map (·.2),
      row ∈ visible_rows deps.platform db ctx.build_seq ctx.requester := by
    intro row hrow
    obtain ⟨entry, hentry, rfl⟩ := List.mem_map.1 hrow
    exact mem_search_rows (mem_matched_paths hentry)
  unfold resolve_file at h
  dsimp only at h
  split at h
  · obtain rfl := Option.some.inj h
    exact scopeNamed_nil _ _ _
  · rename_i row hone
    obtain rfl := Option.some.inj h
    rw [hone] at hfound
    exact scopeNamed_entity (hfound row (List.mem_singleton_self row)) _ _ _
  · apply scopeNamed_found hfound _ h
    intro id hid
    obtain ⟨row, hrow, rfl⟩ := List.mem_map.1 hid
    exact ⟨row, mem_sorted.1 hrow, rfl⟩

/-- What several hints resolve to together names what each of them does. -/
theorem scopeNamed_join_scopes {rows : List ArtifactRow} {task : String} {scopes : List ScopeResolution}
    (h : ∀ scope ∈ scopes, ScopeNamed rows task scope) : ScopeNamed rows task (join_scopes scopes) := by
  constructor
  case entities =>
    intro e he
    obtain ⟨scope, hscope, hmem⟩ := List.mem_flatMap.1 he
    exact (h scope hscope).entities e hmem
  case ambiguous =>
    intro c hc
    obtain ⟨scope, hscope, hmem⟩ := List.mem_flatMap.1 hc
    exact (h scope hscope).ambiguous c hmem

theorem scopeNamed_resolve_from_hints {scope : ScopeResolution} (h : resolve_from_hints deps db ctx = some scope) :
    ScopeNamed (visible_rows deps.platform db ctx.build_seq ctx.requester) ctx.request.task_description scope := by
  simp only [resolve_from_hints, Option.bind_eq_bind, Option.bind_eq_some_iff, Option.some.injEq] at h
  obtain ⟨symbols, hsymbols, files, hfiles, rfl⟩ := h
  apply scopeNamed_join_scopes
  intro scope hscope
  cases List.mem_append.1 hscope with
  | inl hsymbol =>
    obtain ⟨symbol, -, hresolved⟩ := exists_of_mem_mapM hsymbols hsymbol
    exact scopeNamed_resolve_symbol hresolved
  | inr hfile =>
    obtain ⟨path, -, hresolved⟩ := exists_of_mem_mapM hfiles hfile
    exact scopeNamed_resolve_file hresolved

/-- A row hydrated under an id is the row the requester sees there. -/
theorem hydrate_allowed_some {ids : List Uuid} {id : Uuid} {row : ArtifactRow}
    (h : hydrate_allowed deps db ctx ids id = some row) :
    row ∈ visible_rows deps.platform db ctx.build_seq ctx.requester ∧ row.artifact_id = id := by
  rw [hydrate_allowed, allowed_by_id, filter_fetch_artifacts] at h
  have hmem := List.mem_reverse.1 (List.mem_of_find?_eq_some h)
  exact ⟨List.mem_of_mem_filter hmem, by simpa using List.find?_some h⟩

theorem scopeNamed_resolve_from_alias {rows visible : List ArtifactRow} (hrows : ∀ row ∈ rows, row ∈ visible)
    (hvisible : visible = visible_rows deps.platform db ctx.build_seq ctx.requester) {scores : Dict Uuid Rat}
    {scope : ScopeResolution} (h : resolve_from_alias deps db ctx rows scores = some scope) :
    ScopeNamed visible ctx.request.task_description scope := by
  unfold resolve_from_alias at h
  split at h
  · obtain rfl := Option.some.inj h
    exact scopeNamed_nil _ _ _
  · rename_i top others halias
    have htop : top ∈ rows.filter fun row => row.artifact_type == .alias_reference := halias ▸ List.mem_cons_self
    obtain ⟨hmem, htype⟩ := List.mem_filter.1 htop
    dsimp only at h
    split at h
    · obtain rfl := Option.some.inj h
      exact scopeNamed_nil _ _ _
    · split at h
      · obtain rfl := Option.some.inj h
        refine ⟨fun e he => ?_, fun _ h => absurd h List.not_mem_nil⟩
        obtain ⟨row, hrow, rfl⟩ := List.mem_map.1 (List.mem_of_mem_take he)
        obtain ⟨id, -, hid⟩ := List.mem_filterMap.1 hrow
        exact ⟨row, hvisible ▸ (hydrate_allowed_some hid).1, _, _, rfl⟩
      · obtain ⟨c, hc, hscope⟩ := Option.bind_eq_some_iff.1 h
        obtain rfl := Option.some.inj hscope
        exact scopeNamed_candidate (.inr ⟨top, hrows top hmem, beq_iff_eq.1 htype, (ambiguous_candidate_some hc).1⟩) _

theorem mem_task_rows {top : Nat} {row : ArtifactRow} (h : row ∈ (task_rows deps db ctx top).1) :
    row ∈ visible_rows deps.platform db ctx.build_seq ctx.requester := mem_search_rows h

theorem scopeNamed_resolve_from_search {rows visible : List ArtifactRow} (hrows : ∀ row ∈ rows, row ∈ visible)
    (broadened : Bool) (task : String) : ScopeNamed visible task (resolve_from_search rows broadened) := by
  refine ⟨fun e he => ?_, fun _ h => absurd h List.not_mem_nil⟩
  obtain ⟨row, hrow, rfl⟩ := List.mem_map.1 he
  exact ⟨row, hrows row (List.mem_of_mem_filter (List.mem_of_mem_take hrow)), _, _, rfl⟩

/-- The rows of the task's search are rows the requester may see, and the scope names no others. -/
theorem scopeNamed_resolve_entities_and_rows {broadened : Bool} {scope : ScopeResolution}
    {task_hits : Option (List ArtifactRow)} {searches : Nat}
    (h : resolve_entities_and_rows deps db ctx broadened = some (scope, task_hits, searches)) :
    ScopeNamed (visible_rows deps.platform db ctx.build_seq ctx.requester) ctx.request.task_description scope ∧
      ∀ rows ∈ task_hits, ∀ row ∈ rows, row ∈ visible_rows deps.platform db ctx.build_seq ctx.requester := by
  unfold resolve_entities_and_rows at h
  dsimp only at h
  obtain ⟨from_hints, hhints, h⟩ := Option.bind_eq_some_iff.1 h
  split at h
  · obtain ⟨rfl, hnone⟩ := Prod.mk.inj (Option.some.inj h)
    obtain ⟨rfl, -⟩ := Prod.mk.inj hnone
    exact ⟨scopeNamed_resolve_from_hints hhints, fun _ h => absurd h (Option.not_mem_none _)⟩
  · obtain ⟨from_alias, halias, h⟩ := Option.bind_eq_some_iff.1 h
    have hrows := @mem_task_rows deps db ctx (if broadened then BROADENED_TOP else SEARCH_TOP)
    have hkept : ∀ rows ∈ some (task_rows deps db ctx (if broadened then BROADENED_TOP else SEARCH_TOP)).1, ∀ row ∈ rows,
        row ∈ visible_rows deps.platform db ctx.build_seq ctx.requester := by
      intro rows hmem row hrow
      obtain rfl := Option.some.inj hmem
      exact hrows hrow
    split at h
    · obtain ⟨rfl, hhits⟩ := Prod.mk.inj (Option.some.inj h)
      obtain ⟨rfl, -⟩ := Prod.mk.inj hhits
      have hnamed := scopeNamed_resolve_from_alias (fun row hrow => hrows hrow) rfl halias
      exact ⟨⟨hnamed.entities, hnamed.ambiguous⟩, hkept⟩
    · obtain ⟨rfl, hhits⟩ := Prod.mk.inj (Option.some.inj h)
      obtain ⟨rfl, -⟩ := Prod.mk.inj hhits
      have hnamed := scopeNamed_resolve_from_search (fun row hrow => hrows hrow) broadened ctx.request.task_description
      exact ⟨⟨hnamed.entities, hnamed.ambiguous⟩, hkept⟩

end Scope

section Pass

/-- What an entry of the blast radius says is a row's, and a path in its caveat too. -/
structure EntryNamed (rows : List ArtifactRow) (entry : BlastEntry) : Prop where
  named : ∃ row ∈ rows, entry.entity_id = row.artifact_id ∧ entry.symbol = symbol_of row ∧
    entry.path = readable_path row.source_uri
  caveat : ∀ caveat ∈ entry.caveat, caveat = unresolved_call ∨
    ∃ row ∈ rows, caveat = uncorroborated_call (readable_path row.source_uri)

theorem calls_edge_tier_caveat {caller_file target_file : Option Uuid} {pairs : List (Uuid × Uuid)}
    {target_path : Option String} {caveat : String}
    (h : caveat ∈ (calls_edge_tier caller_file target_file pairs target_path).2) :
    caveat = unresolved_call ∨ ∃ path ∈ target_path, caveat = uncorroborated_call path := by
  have hdemoted : ∀ (corroborated : Bool) (note : Option String),
      caveat ∈ (if corroborated then ((.deterministic, none) : ConfidenceTier × Option String) else (.interpreted, note)).2 →
      note = some caveat := by
    intro corroborated note hmem
    cases corroborated with
    | true => cases hmem
    | false => exact hmem
  unfold calls_edge_tier at h
  dsimp only at h
  cases hpath : target_path.filter fun path => path != "" with
  | none =>
    rw [hpath] at h
    exact .inl (Option.some.inj (hdemoted _ _ h)).symm
  | some path =>
    rw [hpath] at h
    obtain ⟨hsome, -⟩ := Option.filter_eq_some_iff.1 hpath
    exact .inr ⟨path, hsome, (Option.some.inj (hdemoted _ _ h)).symm⟩

variable {edges_at : List Uuid → List EdgeType → List EdgeRow} {cap : Nat} {seeds : List Uuid}
  {hydrate : List Uuid → Uuid → Option ArtifactRow} {rows : List ArtifactRow}

theorem entryNamed_blast_entity (hhydrate : ∀ ids id row, hydrate ids id = some row → row ∈ rows) {e : EdgeRow}
    {neighbor_id : Uuid} {entry : BlastEntry} (h : blast_entity edges_at cap seeds hydrate e neighbor_id = some entry) :
    EntryNamed rows entry := by
  unfold blast_entity at h
  obtain ⟨row, hrow, rfl⟩ := Option.map_eq_some_iff.1 h
  constructor
  case named => exact ⟨row, hhydrate _ _ _ hrow, rfl, rfl, rfl⟩
  case caveat =>
    intro caveat hcaveat
    dsimp only at hcaveat
    split at hcaveat
    · cases calls_edge_tier_caveat hcaveat with
      | inl hunresolved => exact .inl hunresolved
      | inr hpath =>
        obtain ⟨path, hpath, rfl⟩ := hpath
        obtain ⟨file, hfile, rfl⟩ := Option.map_eq_some_iff.1 hpath
        obtain ⟨file_id, -, hfile⟩ := Option.bind_eq_some_iff.1 hfile
        exact .inr ⟨file, hhydrate _ _ _ hfile, rfl⟩
    · cases hcaveat

theorem entryNamed_blast_radius (hhydrate : ∀ ids id row, hydrate ids id = some row → row ∈ rows)
    (str_uuid : Uuid → String) {entry : BlastEntry}
    (h : entry ∈ (blast_radius edges_at cap seeds hydrate str_uuid).1.callers ∨
      entry ∈ (blast_radius edges_at cap seeds hydrate str_uuid).1.callees ∨
      entry ∈ (blast_radius edges_at cap seeds hydrate str_uuid).1.tests) : EntryNamed rows entry := by
  have hnamed : ∀ (edges : List EdgeRow) (other : EdgeRow → Uuid),
      entry ∈ ordered str_uuid (edges.filterMap fun e => blast_entity edges_at cap seeds hydrate e (other e)) →
      EntryNamed rows entry := by
    intro edges other hentry
    obtain ⟨e, -, hentity⟩ := List.mem_filterMap.1 (mem_sorted.1 hentry)
    exact entryNamed_blast_entity hhydrate hentity
  unfold blast_radius at h
  by_cases hseeds : seeds.isEmpty
  · simp [hseeds] at h
  · simp only [hseeds] at h
    obtain hcaller | hcallee | htest := h
    · exact hnamed _ (·.from_artifact_id) hcaller
    · exact hnamed _ (·.to_artifact_id) hcallee
    · exact hnamed _ (·.from_artifact_id) htest

variable {deps : TaskContextDeps} {db : Database} {ctx : TaskContextCtx}

/-- What the nodes of a pass find is about rows. -/
structure PassNamed (p : Platform) (rows : List ArtifactRow) (task : String) (pass : TaskContextPass) : Prop where
  scope : ScopeNamed rows task pass.scope
  callers : ∀ entry ∈ pass.blast.callers, EntryNamed rows entry
  callees : ∀ entry ∈ pass.blast.callees, EntryNamed rows entry
  tests : ∀ entry ∈ pass.blast.tests, EntryNamed rows entry
  conventions : ∀ c ∈ pass.conventions, ∃ row ∈ rows, convention row = some c
  prior_changes : ∀ c ∈ pass.prior_changes, ∃ row ∈ rows, prior_change p row = some c

theorem mem_convention_rows {scope : ScopeResolution} {found : List ArtifactRow} {row : ArtifactRow}
    (h : row ∈ convention_rows deps scope found) : row ∈ found := by
  unfold convention_rows at h
  dsimp only at h
  have hdocs := List.mem_of_mem_take h
  split at hdocs
  · exact List.mem_of_mem_filter hdocs
  · exact List.mem_of_mem_filter (List.mem_of_mem_filter hdocs)

theorem conventions_named {broadened : Bool} {conventions : List Convention} {calls : Nat}
    (h : conventions_node deps db ctx broadened = some (conventions, calls)) :
    ∀ c ∈ conventions, ∃ row ∈ visible_rows deps.platform db ctx.build_seq ctx.requester, convention row = some c := by
  unfold conventions_node at h
  obtain ⟨resolved, hresolved, h⟩ := Option.bind_eq_some_iff.1 h
  obtain ⟨scope, task_hits, searches⟩ := resolved
  have hhits := (scopeNamed_resolve_entities_and_rows hresolved).2
  have hnamed : ∀ {found : List ArtifactRow} {again : Nat}, (∀ row ∈ found,
        row ∈ visible_rows deps.platform db ctx.build_seq ctx.requester) →
      ((convention_rows deps scope found).mapM convention).bind (fun conventions => some (conventions, searches + again)) =
        some (conventions, calls) →
      ∀ c ∈ conventions, ∃ row ∈ visible_rows deps.platform db ctx.build_seq ctx.requester, convention row = some c := by
    intro found again hfound hbind c hc
    obtain ⟨made, hmade, heq⟩ := Option.bind_eq_some_iff.1 hbind
    obtain ⟨rfl, -⟩ := Prod.mk.inj (Option.some.inj heq)
    obtain ⟨row, hrow, hconvention⟩ := exists_of_mem_mapM hmade hc
    exact ⟨row, hfound row (mem_convention_rows hrow), hconvention⟩
  cases task_hits with
  | none => exact hnamed (fun row hrow => mem_task_rows hrow) h
  | some rows =>
    cases broadened with
    | true => exact hnamed (fun row hrow => mem_task_rows hrow) h
    | false => exact hnamed (hhits rows rfl) h

theorem prior_changes_named {prior : List PriorChange} {calls : Nat}
    (h : similar_prior_changes_node deps db ctx = some (prior, calls)) :
    ∀ c ∈ prior, ∃ row ∈ visible_rows deps.platform db ctx.build_seq ctx.requester,
      prior_change deps.platform row = some c := by
  unfold similar_prior_changes_node at h
  obtain ⟨made, hmade, heq⟩ := Option.bind_eq_some_iff.1 h
  obtain ⟨rfl, -⟩ := Prod.mk.inj (Option.some.inj heq)
  intro c hc
  obtain ⟨row, hrow, hchange⟩ := exists_of_mem_mapM hmade hc
  exact ⟨row, mem_task_rows (List.mem_of_mem_filter (List.mem_of_mem_take hrow)), hchange⟩

theorem passNamed_fan_out {broadened : Bool} {pass : TaskContextPass} (h : fan_out deps db ctx broadened = some pass) :
    PassNamed deps.platform (visible_rows deps.platform db ctx.build_seq ctx.requester) ctx.request.task_description
      pass := by
  have hblast := blast_of_fan_out h
  have hhydrate : ∀ ids id row, hydrate_allowed deps db ctx ids id = some row →
      row ∈ visible_rows deps.platform db ctx.build_seq ctx.requester := fun ids id row hrow => (hydrate_allowed_some hrow).1
  simp only [fan_out, Option.bind_eq_bind, Option.bind_eq_some_iff, Option.some.injEq] at h
  obtain ⟨resolved, hresolved, blast, -, conventions, hconventions, prior, hprior, rfl⟩ := h
  constructor
  case scope => exact (scopeNamed_resolve_entities_and_rows hresolved).1
  case callers =>
    intro entry hentry
    rw [hblast] at hentry
    exact entryNamed_blast_radius hhydrate _ (.inl hentry)
  case callees =>
    intro entry hentry
    rw [hblast] at hentry
    exact entryNamed_blast_radius hhydrate _ (.inr (.inl hentry))
  case tests =>
    intro entry hentry
    rw [hblast] at hentry
    exact entryNamed_blast_radius hhydrate _ (.inr (.inr hentry))
  case conventions => exact conventions_named hconventions
  case prior_changes => exact prior_changes_named hprior

end Pass

section Response

variable {p : Platform} {rows : List ArtifactRow} {task : String}

/-- What a wire entry says of its neighbor. -/
structure WireNamed (rows : List ArtifactRow) (paths : List String) (wire : BlastRadiusEntity) : Prop where
  named : ∃ row ∈ rows, wire.entity_id = row.artifact_id ∧ wire.symbol = symbol_of row ∧
    paths[wire.path_ref]? = some (readable_path row.source_uri)
  caveat : ∀ caveat ∈ wire.caveat, caveat = unresolved_call ∨
    ∃ row ∈ rows, caveat = uncorroborated_call (readable_path row.source_uri)

theorem wireNamed_of_wired {paths : List String} {entries : List BlastEntry} {wires : List BlastRadiusEntity}
    (hwired : List.Forall₂ (Wired paths) entries wires) (hnamed : ∀ entry ∈ entries, EntryNamed rows entry) :
    ∀ wire ∈ wires, WireNamed rows paths wire := by
  intro wire hwire
  obtain ⟨entry, hentry, h⟩ := exists_of_mem_forall₂ hwired hwire
  obtain ⟨row, hrow, hid, hsymbol, hpath⟩ := (hnamed entry hentry).named
  have hsame := h.same
  constructor
  case named =>
    refine ⟨row, hrow, ?_, ?_, ?_⟩
    · rw [hsame]
      exact hid
    · rw [hsame]
      exact hsymbol
    · rw [h.path, hpath]
  case caveat =>
    rw [hsame]
    exact (hnamed entry hentry).caveat

theorem evidence_of_convention {row : ArtifactRow} {c : Convention} (h : convention row = some c) :
    c.evidence_ids = [row.artifact_id] := by
  unfold convention at h
  dsimp only at h
  split at h
  · obtain rfl := Option.some.inj h
    rfl
  · cases h

theorem evidence_of_prior_change {row : ArtifactRow} {c : PriorChange} (h : prior_change p row = some c) :
    c.evidence_ids = [row.artifact_id] := by
  unfold prior_change at h
  obtain ⟨hne, hmade⟩ := Option.dite_none_right_eq_some.1 h
  obtain rfl := Option.some.inj hmade
  rfl

/-- What is kept of a pass names what the pass names, and so does the response. -/
theorem onlyRowsButTargets_synthesize {deps : TaskContextDeps} {request : GetTaskContextRequest} {pass : TaskContextPass}
    (hpass : PassNamed deps.platform rows task pass) (broadened : Bool) (calls_used : Nat) :
    OnlyRowsButTargets deps.platform rows task (synthesize deps request pass broadened calls_used) := by
  obtain ⟨kept, htrimmed⟩ := synthesize_trims deps request pass broadened calls_used
  generalize synthesize deps request pass broadened calls_used = response at htrimmed
  have hcarries := htrimmed.carries
  have hlead := htrimmed.kept_prefix
  have hcallers : ∀ entry ∈ kept.callers, EntryNamed rows entry := fun entry hentry =>
    hpass.callers entry (List.mem_of_mem_filter (hlead.callers.subset hentry))
  have hcallees : ∀ entry ∈ kept.callees, EntryNamed rows entry := fun entry hentry =>
    hpass.callees entry (List.mem_of_mem_filter (hlead.callees.subset hentry))
  have htests : ∀ entry ∈ kept.tests, EntryNamed rows entry := fun entry hentry =>
    hpass.tests entry (List.mem_of_mem_filter (hlead.tests.subset hentry))
  have hconventions : ∀ c ∈ response.conventions, ∃ row ∈ rows, convention row = some c := by
    intro c hc
    rw [hcarries.conventions] at hc
    exact hpass.conventions c (List.mem_of_mem_filter (hlead.conventions.subset hc))
  have hprior : ∀ c ∈ response.similar_prior_changes, ∃ row ∈ rows, prior_change deps.platform row = some c := by
    intro c hc
    rw [hcarries.prior] at hc
    have hmem := hlead.prior.subset hc
    unfold assembled floor_prior at hmem
    dsimp only at hmem
    split at hmem
    · exact hpass.prior_changes c hmem
    · cases hmem
  have hentities : ∀ e ∈ response.resolved_scope.entities, ∃ row ∈ rows, ∃ source tier, e = entity row source tier := by
    intro e he
    rw [hcarries.resolved_scope] at he
    exact hpass.scope.entities e (List.mem_of_mem_filter he)
  have hcandidates : ∀ c ∈ response.resolved_scope.ambiguous_candidates, CandidateNamed rows task c := by
    intro c hc
    rw [hcarries.resolved_scope] at hc
    exact hpass.scope.ambiguous c hc
  have hwires : ∀ wire ∈ response.blast_radius.callers ++ response.blast_radius.callees ++ response.blast_radius.tests,
      WireNamed rows response.referenced_paths wire := by
    intro wire hwire
    rw [List.append_assoc, List.mem_append, List.mem_append] at hwire
    obtain hcaller | hcallee | htest := hwire
    · exact wireNamed_of_wired hcarries.callers hcallers wire hcaller
    · exact wireNamed_of_wired hcarries.callees hcallees wire hcallee
    · exact wireNamed_of_wired hcarries.tests htests wire htest
  constructor
  case toNamesRows =>
    constructor
    case entities => exact hentities
    case paths =>
      intro path hpath
      obtain ⟨entry, hentry, rfl⟩ := (hcarries.paths path).1 hpath
      have hnamed : EntryNamed rows entry := by
        rw [Kept.entries, List.append_assoc, List.mem_append, List.mem_append] at hentry
        obtain hcaller | hcallee | htest := hentry
        · exact hcallers entry hcaller
        · exact hcallees entry hcallee
        · exact htests entry htest
      obtain ⟨row, hrow, -, -, hpath⟩ := hnamed.named
      exact ⟨row, hrow, hpath⟩
    case neighbors => exact fun wire hwire => ⟨(hwires wire hwire).named, (hwires wire hwire).caveat⟩
    case conventions => exact hconventions
    case prior_changes => exact hprior
  case candidates => exact hcandidates
  case evidence =>
    intro id hid
    rw [hcarries.evidence, GetTaskContextResponse.cited] at hid
    simp only [List.mem_append, List.mem_map, List.mem_flatMap] at hid
    obtain (((hentity | hcandidate) | hwire) | hconvention) | hchange := hid
    · obtain ⟨e, he, rfl⟩ := hentity
      obtain ⟨row, hrow, source, tier, rfl⟩ := hentities e he
      exact .inl ⟨row, hrow, rfl⟩
    · exact .inr hcandidate
    · obtain ⟨wire, hwire, rfl⟩ := hwire
      obtain ⟨row, hrow, hid, -⟩ := (hwires wire (by simpa only [List.mem_append] using hwire)).named
      exact .inl ⟨row, hrow, hid.symm⟩
    · obtain ⟨c, hc, hid⟩ := hconvention
      obtain ⟨row, hrow, hmade⟩ := hconventions c hc
      rw [evidence_of_convention hmade, List.mem_singleton] at hid
      exact .inl ⟨row, hrow, hid.symm⟩
    · obtain ⟨c, hc, hid⟩ := hchange
      obtain ⟨row, hrow, hmade⟩ := hprior c hc
      rw [evidence_of_prior_change hmade, List.mem_singleton] at hid
      exact .inl ⟨row, hrow, hid.symm⟩

end Response

section Reach

variable (db : Database) (build_seq : Nat)

/-- The member edges at some artifacts, in the order of the query. -/
def edges_touching (keep : Uuid → Bool) : List EdgeRow :=
  (sorted EdgeRow.le (member_edges db build_seq)).filter fun e => keep e.from_artifact_id || keep e.to_artifact_id

/-- One of some artifacts, or one edge away from them. -/
def beside (keep : Uuid → Bool) (id : Uuid) : Bool :=
  keep id || (edges_touching db build_seq keep).any fun e => e.from_artifact_id == id || e.to_artifact_id == id

end Reach

/-- Two databases that agree on what a requester may see of the version they serve, and on the edges that touch that or
something one edge away from it. -/
structure SameReach (p : Platform) (requester : Requester) (db db' : Database) : Prop where
  active : fetch_active_version db = fetch_active_version db'
  rows : ∀ active ∈ fetch_active_version db,
    visible_rows p db active.build_seq requester = visible_rows p db' active.build_seq requester
  near : ∀ active ∈ fetch_active_version db,
    edges_touching db active.build_seq (shown p db active.build_seq requester) =
      edges_touching db' active.build_seq (shown p db' active.build_seq requester)
  beyond : ∀ active ∈ fetch_active_version db,
    edges_touching db active.build_seq (beside db active.build_seq (shown p db active.build_seq requester)) =
      edges_touching db' active.build_seq (beside db' active.build_seq (shown p db' active.build_seq requester))

section Agreement

variable {deps : TaskContextDeps} {db db' : Database} {ctx : TaskContextCtx}

/-- The reads of a task agree: its hits, the rows that may be shown, and the edges at what is shown and beside it. -/
structure SameTaskReads (deps : TaskContextDeps) (ctx : TaskContextCtx) (db db' : Database) : Prop where
  hits : ∀ query top, deps.search db query ctx.build_seq top = deps.search db' query ctx.build_seq top
  rows : visible_rows deps.platform db ctx.build_seq ctx.requester = visible_rows deps.platform db' ctx.build_seq ctx.requester
  near : ∀ ids : List Uuid, (∀ id ∈ ids, shown deps.platform db ctx.build_seq ctx.requester id = true) →
    admitted_edges_at db ctx.build_seq ids = admitted_edges_at db' ctx.build_seq ids
  beyond : ∀ ids : List Uuid,
    (∀ id ∈ ids, beside db ctx.build_seq (shown deps.platform db ctx.build_seq ctx.requester) id = true) →
    admitted_edges_at db ctx.build_seq ids = admitted_edges_at db' ctx.build_seq ids

/-- The edges at some artifacts are among those that touch them. -/
theorem admitted_edges_at_eq {keep : Uuid → Bool} {ids : List Uuid} (hids : ∀ id ∈ ids, keep id = true)
    (edge_types : List EdgeType) (build_seq : Nat) :
    admitted_edges_at db build_seq ids edge_types =
      ((edges_touching db build_seq keep).filter fun e =>
        (ids.contains e.from_artifact_id || ids.contains e.to_artifact_id) && edge_types.contains e.edge_type).filter fun e =>
          admits e.trust_class .EXTRACTED false := by
  have htouch : (fetch_edges_touching db ids build_seq (some edge_types)).filter (fun e =>
      keep e.from_artifact_id || keep e.to_artifact_id) = fetch_edges_touching db ids build_seq (some edge_types) := by
    apply List.filter_eq_self.2
    intro e he
    obtain ⟨-, hend, -⟩ := mem_fetch_edges_touching.1 he
    cases hend with
    | inl hfrom => rw [hids _ hfrom, Bool.true_or]
    | inr hto => rw [hids _ hto, Bool.or_true]
  rw [admitted_edges_at, ← htouch, filter_fetch_edges_touching]
  rfl

theorem SameReach.reads {p : Platform} {requester : Requester} (h : SameReach p requester db db') (hp : deps.platform = p)
    {active : ActiveVersion} (hactive : active ∈ fetch_active_version db) (request : GetTaskContextRequest)
    (hhits : ∀ query build_seq top, deps.search db query build_seq top = deps.search db' query build_seq top) :
    SameTaskReads deps { requester, request, build_seq := active.build_seq } db db' := by
  subst hp
  constructor
  case hits => exact fun query top => hhits query _ top
  case rows => exact h.rows active hactive
  case near =>
    intro ids hids
    funext edge_types
    have hids' : ∀ id ∈ ids, shown deps.platform db' active.build_seq requester id = true := by
      intro id hid
      rw [shown, ← h.rows active hactive]
      exact hids id hid
    rw [admitted_edges_at_eq hids, admitted_edges_at_eq hids', h.near active hactive]
  case beyond =>
    intro ids hids
    funext edge_types
    have hids' : ∀ id ∈ ids,
        beside db' active.build_seq (shown deps.platform db' active.build_seq requester) id = true := by
      intro id hid
      rw [beside, ← h.near active hactive, shown, ← h.rows active hactive]
      exact hids id hid
    rw [admitted_edges_at_eq hids, admitted_edges_at_eq hids', h.beyond active hactive]

theorem SameTaskReads.search_rows (h : SameTaskReads deps ctx db db') : search_rows deps db ctx = search_rows deps db' ctx := by
  funext query top
  rw [ContextBroker.search_rows, ContextBroker.search_rows, h.hits, filter_fetch_artifacts, filter_fetch_artifacts, h.rows]

theorem SameTaskReads.hydrate_allowed (h : SameTaskReads deps ctx db db') :
    hydrate_allowed deps db ctx = hydrate_allowed deps db' ctx := by
  funext ids id
  rw [ContextBroker.hydrate_allowed, ContextBroker.hydrate_allowed, allowed_by_id, allowed_by_id, filter_fetch_artifacts,
    filter_fetch_artifacts, h.rows]

theorem SameTaskReads.resolve_from_hints (h : SameTaskReads deps ctx db db') :
    resolve_from_hints deps db ctx = resolve_from_hints deps db' ctx := by
  have hsymbol : resolve_symbol deps db ctx = resolve_symbol deps db' ctx := by
    funext symbol
    unfold resolve_symbol
    rw [h.search_rows]
  have hfile : resolve_file deps db ctx = resolve_file deps db' ctx := by
    funext path
    unfold resolve_file
    rw [h.search_rows]
  unfold ContextBroker.resolve_from_hints
  rw [hsymbol, hfile]

theorem SameTaskReads.resolve_entities_and_rows (h : SameTaskReads deps ctx db db') :
    resolve_entities_and_rows deps db ctx = resolve_entities_and_rows deps db' ctx := by
  have halias : resolve_from_alias deps db ctx = resolve_from_alias deps db' ctx := by
    funext rows scores
    unfold resolve_from_alias
    rw [h.hydrate_allowed]
  have htask : task_rows deps db ctx = task_rows deps db' ctx := by
    funext top
    unfold task_rows
    rw [h.search_rows]
  funext broadened
  unfold ContextBroker.resolve_entities_and_rows
  rw [h.resolve_from_hints, htask, halias]

end Agreement

section Blast

variable {edges_at edges_at' : List Uuid → List EdgeType → List EdgeRow} {cap : Nat} {seeds : List Uuid}

/-- The blast radius reads the edges at the seeds, and then those at what they lead to. -/
theorem blast_radius_congr (hseeds : edges_at seeds = edges_at' seeds)
    (hbeyond : edges_at (corroboration_seeds edges_at cap seeds) = edges_at' (corroboration_seeds edges_at cap seeds))
    (hydrate : List Uuid → Uuid → Option ArtifactRow) (str_uuid : Uuid → String) :
    blast_radius edges_at cap seeds hydrate str_uuid = blast_radius edges_at' cap seeds hydrate str_uuid := by
  have hedges : seed_edges edges_at seeds = seed_edges edges_at' seeds := by rw [seed_edges, seed_edges, hseeds]
  have hcallers : caller_edges edges_at seeds = caller_edges edges_at' seeds := by rw [caller_edges, caller_edges, hedges]
  have hcallees : callee_edges edges_at seeds = callee_edges edges_at' seeds := by rw [callee_edges, callee_edges, hedges]
  have htests : test_edges edges_at seeds = test_edges edges_at' seeds := by rw [test_edges, test_edges, hedges]
  have hfiles : seed_files edges_at seeds = seed_files edges_at' seeds := by rw [seed_files, seed_files, hedges]
  have hneighbors : neighbor_ids edges_at cap seeds = neighbor_ids edges_at' cap seeds := by
    rw [neighbor_ids, neighbor_ids, hcallers, hcallees, htests]
  have hcorroboration : corroboration_seeds edges_at cap seeds = corroboration_seeds edges_at' cap seeds := by
    rw [corroboration_seeds, corroboration_seeds, hneighbors, hfiles]
  have hsecond : corroboration_edges edges_at cap seeds = corroboration_edges edges_at' cap seeds := by
    rw [corroboration_edges, corroboration_edges, ← hcorroboration, hbeyond]
  have hdefined : defined_in edges_at cap seeds = defined_in edges_at' cap seeds := by
    rw [defined_in, defined_in, hsecond, hfiles]
  have hpairs : import_pairs edges_at cap seeds = import_pairs edges_at' cap seeds := by
    rw [import_pairs, import_pairs, hsecond, hedges]
  have hrows : blast_rows edges_at cap seeds hydrate = blast_rows edges_at' cap seeds hydrate := by
    rw [blast_rows, blast_rows, hneighbors, hdefined]
  have hentity : blast_entity edges_at cap seeds hydrate = blast_entity edges_at' cap seeds hydrate := by
    funext e neighbor_id
    unfold blast_entity
    rw [hrows, hdefined, hpairs]
  unfold blast_radius
  rw [hentity, hcallers, hcallees, htests, hcorroboration]

variable {db db' : Database} {build_seq : Nat} {keep : Uuid → Bool}

theorem mem_edges_touching_of_seed_edges (hseeds : ∀ id ∈ seeds, keep id = true) {e : EdgeRow}
    (h : e ∈ seed_edges (admitted_edges_at db build_seq) seeds) : e ∈ edges_touching db build_seq keep := by
  rw [seed_edges, admitted_edges_at_eq hseeds] at h
  exact List.mem_of_mem_filter (List.mem_of_mem_filter h)

/-- What the second read is made for is one edge away from a seed. -/
theorem beside_of_corroboration_seeds (hseeds : ∀ id ∈ seeds, keep id = true) {id : Uuid}
    (h : id ∈ corroboration_seeds (admitted_edges_at db build_seq) cap seeds) : beside db build_seq keep id = true := by
  have hfrom : ∀ e ∈ seed_edges (admitted_edges_at db build_seq) seeds, beside db build_seq keep e.from_artifact_id = true := by
    intro e he
    rw [beside, Bool.or_eq_true, List.any_eq_true]
    exact .inr ⟨e, mem_edges_touching_of_seed_edges hseeds he, by simp⟩
  have hto : ∀ e ∈ seed_edges (admitted_edges_at db build_seq) seeds, beside db build_seq keep e.to_artifact_id = true := by
    intro e he
    rw [beside, Bool.or_eq_true, List.any_eq_true]
    exact .inr ⟨e, mem_edges_touching_of_seed_edges hseeds he, by simp⟩
  rw [corroboration_seeds, neighbor_ids, List.mem_append, List.mem_append, List.mem_map, List.mem_map, List.mem_map] at h
  obtain (hcaller | hcallee) | hfile := h
  · obtain ⟨e, he, rfl⟩ := hcaller
    cases List.mem_append.1 he with
    | inl hcalls => exact hfrom e (List.mem_of_mem_filter (List.mem_of_mem_take hcalls))
    | inr htests => exact hfrom e (List.mem_of_mem_filter (List.mem_of_mem_take htests))
  · obtain ⟨e, he, rfl⟩ := hcallee
    exact hto e (List.mem_of_mem_filter (List.mem_of_mem_take he))
  · obtain ⟨entry, hentry, rfl⟩ := hfile
    have hfiles : ∀ entry ∈ seed_files (admitted_edges_at db build_seq) seeds, beside db build_seq keep entry.2 = true := by
      unfold seed_files
      apply foldl_invariant (I := fun files : Dict Uuid Uuid => ∀ entry ∈ files, beside db build_seq keep entry.2 = true)
      · intro files e he hfiles entry hentry
        cases Dict.mem_set hentry with
        | inl hold => exact hfiles entry hold
        | inr hnew =>
          rw [hnew]
          exact hto e (List.mem_of_mem_filter he)
      · exact fun _ h => absurd h List.not_mem_nil
    exact hfiles entry hentry

end Blast

section Answers

variable {deps : TaskContextDeps} {db db' : Database} {ctx : TaskContextCtx}

theorem shown_of_mem_visible_rows {p : Platform} {build_seq : Nat} {requester : Requester} {row : ArtifactRow}
    (h : row ∈ visible_rows p db build_seq requester) : shown p db build_seq requester row.artifact_id = true := by
  rw [shown, List.any_eq_true]
  exact ⟨row, h, beq_self_eq_true _⟩

theorem SameTaskReads.blast_radius_node (h : SameTaskReads deps ctx db db') :
    blast_radius_node deps db ctx = blast_radius_node deps db' ctx := by
  funext broadened
  unfold ContextBroker.blast_radius_node
  rw [← h.resolve_entities_and_rows, ← h.hydrate_allowed]
  cases hresolved : ContextBroker.resolve_entities_and_rows deps db ctx broadened with
  | none => rfl
  | some resolved =>
    obtain ⟨scope, task_hits, searches⟩ := resolved
    have hseeds : ∀ id ∈ scope.entities.map (·.entity_id), shown deps.platform db ctx.build_seq ctx.requester id = true := by
      intro id hid
      obtain ⟨e, he, rfl⟩ := List.mem_map.1 hid
      obtain ⟨row, hrow, source, tier, rfl⟩ := (scopeNamed_resolve_entities_and_rows hresolved).1.entities e he
      exact shown_of_mem_visible_rows hrow
    have hsame := @blast_radius_congr _ _ deps.settings.max_graph_neighbors _ (h.near _ hseeds)
      (h.beyond _ fun id hid => beside_of_corroboration_seeds hseeds hid) (ContextBroker.hydrate_allowed deps db ctx)
      deps.platform.str_uuid
    simp only [Option.bind_eq_bind, Option.bind_some]
    rw [hsame]

theorem SameTaskReads.fan_out (h : SameTaskReads deps ctx db db') : fan_out deps db ctx = fan_out deps db' ctx := by
  have htask : task_rows deps db ctx = task_rows deps db' ctx := by
    funext top
    unfold task_rows
    rw [h.search_rows]
  have hconventions : conventions_node deps db ctx = conventions_node deps db' ctx := by
    funext broadened
    unfold conventions_node
    rw [h.resolve_entities_and_rows, htask]
  have hprior : similar_prior_changes_node deps db ctx = similar_prior_changes_node deps db' ctx := by
    unfold similar_prior_changes_node
    rw [htask]
  funext broadened
  unfold ContextBroker.fan_out
  rw [h.resolve_entities_and_rows, h.blast_radius_node, hconventions, hprior]

/-- A response says of artifacts only what the requester may see of the build that answers, the targets of an ambiguous
alias apart; and apart from the hits of its searches it is a function of that, and of the edges at it and beside it. -/
theorem task_context_reads (deps : TaskContextDeps) (request : GetTaskContextRequest) (requester : Requester) :
    (∀ db active response, fetch_active_version db = some active →
      get_task_context deps db request requester = .ok (some response) →
      OnlyRowsButTargets deps.platform (visible_rows deps.platform db active.build_seq requester) request.task_description
        response) ∧
    ∀ db db', SameReach deps.platform requester db db' →
      (∀ query build_seq top, deps.search db query build_seq top = deps.search db' query build_seq top) →
      get_task_context deps db request requester = get_task_context deps db' request requester := by
  constructor
  · intro db active response hactive h
    obtain ⟨active', pass, broadened, calls_used, hactive', hpass, rfl⟩ := pass_of_get_task_context h
    obtain rfl := Option.some.inj (hactive.symm.trans hactive')
    exact onlyRowsButTargets_synthesize (passNamed_fan_out hpass) broadened calls_used
  · intro db db' hsame hhits
    unfold get_task_context
    rw [← hsame.active]
    cases hactive : fetch_active_version db with
    | none => rfl
    | some active =>
      have hreads := hsame.reads rfl hactive request hhits
      dsimp only
      unfold run_task_context_graph
      rw [hreads.fan_out]

end Answers

section Hub

/-- A search that finds the imported file, whatever is asked. -/
def hub_context_deps : TaskContextDeps :=
  { BrokerDeps.plain with
    search := fun _ _ _ _ => [{ artifact_id := 2, score := 1 }]
    json_loads := fun _ => none
    uuid_of_text := fun _ => none
    response_dump_json := dump_response }

/-- The same repo with the hidden files deleted, and the edges at them still there. -/
def unlisted_database : Database := { repo_database [0, 3] with artifacts := [repo_file 1 [], repo_file 2 []] }

def hub_request : GetTaskContextRequest := { task_description := "import" }

/-- Who imports a file is answered with the file that may be seen, whether the others exist or not. -/
theorem task_context_reads_hub :
    (∃ response, get_task_context hub_context_deps (repo_database [0, 3]) hub_request outsider = .ok (some response) ∧
      OnlyRowsButTargets .plain (visible_rows .plain (repo_database [0, 3]) 1 outsider) "import" response) ∧
    get_task_context hub_context_deps (repo_database [0, 3]) hub_request outsider =
      get_task_context hub_context_deps unlisted_database hub_request outsider := by
  have hsome : ((get_task_context hub_context_deps (repo_database [0, 3]) hub_request outsider).toOption.bind id).isSome = true := by
    decide +kernel
  have hsame : SameReach .plain outsider (repo_database [0, 3]) unlisted_database := by
    constructor
    case active => decide +kernel
    case rows => decide +kernel
    case near => decide +kernel
    case beyond => decide +kernel
  refine ⟨?_, (task_context_reads hub_context_deps hub_request outsider).2 _ _ hsame fun _ _ _ => rfl⟩
  obtain ⟨response, hresponse⟩ := Option.isSome_iff_exists.1 hsome
  have hanswer : get_task_context hub_context_deps (repo_database [0, 3]) hub_request outsider = .ok (some response) := by
    cases hget : get_task_context hub_context_deps (repo_database [0, 3]) hub_request outsider with
    | error message =>
      rw [hget] at hresponse
      cases hresponse
    | ok answer =>
      rw [hget] at hresponse
      have hsome : answer = some response := hresponse
      rw [hsome]
  exact ⟨response, hanswer, (task_context_reads hub_context_deps hub_request outsider).1 (repo_database [0, 3]) ⟨"v1", 1⟩ response
    (by decide +kernel) hanswer⟩

end Hub

end AgenticKb.ContextBroker

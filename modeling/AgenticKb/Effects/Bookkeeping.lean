import AgenticKb.Application.BuildRunner
import AgenticKb.Lib.Run

open AgenticKb.Lib

namespace AgenticKb

/-- Every output mapping belongs to a recorded generation. -/
def MappingsBacked (r : Registry) : Prop :=
  ∀ row ∈ r.generation_cache_artifacts, ∃ entry ∈ r.generation_cache, entry.cache_key = row.cache_key

/-- The run table is not written, random ids are only drawn, the clock does not run back, and outputs are
recorded together with their generation. -/
structure BooksKept (r r' : Registry) : Prop where
  runs : r'.runs = r.runs
  uuids : r.uuids ≤ r'.uuids
  now : r.now ≤ r'.now
  mappings : MappingsBacked r → MappingsBacked r'

theorem BooksKept.refl (r : Registry) : BooksKept r r := ⟨rfl, le_rfl, le_rfl, id⟩

theorem BooksKept.trans {r r' r'' : Registry} (h : BooksKept r r') (h' : BooksKept r' r'') : BooksKept r r'' :=
  ⟨h'.runs.trans h.runs, h.uuids.trans h'.uuids, h.now.trans h'.now, fun hr => h'.mappings (h.mappings hr)⟩

section Loop

variable {p : Platform} {gate : GenerationGate} {b : Build} {r r' : Registry} {fetched : NormalizedContent}

theorem booksKept_upsert_source_item : BooksKept r (upsert_source_item p r fetched).1 := by
  unfold upsert_source_item
  cases source_row r fetched with
  | some existing => exact ⟨rfl, le_rfl, le_rfl, id⟩
  | none => exact ⟨rfl, Nat.le_succ _, le_rfl, id⟩

theorem booksKept_add_artifacts (rows : List (Uuid → KnowledgeArtifact)) :
    BooksKept r (r.add_artifacts p rows).1 := ⟨rfl, Nat.le_add_right _ _, le_rfl, id⟩

/-- The mappings of a record carry its key. -/
private theorem mem_recorded {key : String} {ids : List (Uuid × Nat)} {rows rows' : List GenerationCacheArtifact}
    (h : ids.foldlM (fun rows (artifact_id, position) => GenerationCacheGate.insert_mapping rows
      { cache_key := key, artifact_id, position }) rows = some rows') :
    ∀ row ∈ rows', row ∈ rows ∨ row.cache_key = key := by
  refine foldlM_invariant (I := fun rows' : List GenerationCacheArtifact =>
    ∀ row ∈ rows', row ∈ rows ∨ row.cache_key = key) ?_ (fun _ hrow => .inl hrow) h
  rintro mid ⟨artifact_id, position⟩ mid' - hmid hstep
  dsimp only [GenerationCacheGate.insert_mapping] at hstep
  split at hstep
  · exact Option.some.inj hstep ▸ hmid
  · split at hstep
    · simp at hstep
    · intro row hrow
      rw [← Option.some.inj hstep] at hrow
      rcases List.mem_append.1 hrow with hold | hnew
      · exact hmid row hold
      · exact .inr (List.mem_singleton.1 hnew ▸ rfl)

theorem booksKept_generation_record {cache_key input_hash : String} {ids : List Uuid}
    (h : GenerationCacheGate.record r cache_key input_hash ids = some r') : BooksKept r r' := by
  simp only [GenerationCacheGate.record, Option.bind_eq_bind, Option.bind_eq_some_iff, Option.some.injEq] at h
  obtain ⟨rows, hrows, rfl⟩ := h
  refine ⟨rfl, le_rfl, le_rfl, fun hbacked row hrow => ?_⟩
  have hkeep : ∀ entry ∈ r.generation_cache, entry ∈
      if r.generation_cache.any fun row => row.cache_key == cache_key then r.generation_cache
      else r.generation_cache ++ [{ cache_key, input_hash, output_artifact_id := ids.head? }] := by
    intro entry hentry
    split
    · exact hentry
    · exact List.mem_append_left _ hentry
  rcases mem_recorded hrows row hrow with hold | hkey
  · obtain ⟨entry, hentry, heq⟩ := hbacked row hold
    exact ⟨entry, hkeep entry hentry, heq⟩
  · dsimp only
    split
    · rename_i hany
      obtain ⟨entry, hentry, heq⟩ := List.any_eq_true.1 hany
      exact ⟨entry, hentry, (beq_iff_eq.1 heq).trans hkey.symm⟩
    · exact ⟨_, List.mem_append_right _ (List.mem_singleton_self _), hkey.symm⟩

private theorem booksKept_embed_gated {id : Uuid} (h : embed_gated p b r id = some r') : BooksKept r r' := by
  unfold embed_gated at h
  split at h
  · exact Option.some.inj h ▸ .refl r
  · dsimp only at h
    split at h
    · exact Option.some.inj h ▸ .refl r
    · simp only [Option.bind_eq_bind, Option.bind_eq_some_iff, Option.some.injEq] at h
      obtain ⟨result, -, rfl⟩ := h
      exact ⟨rfl, le_rfl, le_rfl, fun h => h⟩

theorem booksKept_embed_and_index {ids : List Uuid} (h : embed_and_index p b r ids = some r') :
    BooksKept r r' := by
  simp only [embed_and_index, Option.bind_eq_bind, Option.bind_eq_some_iff] at h
  obtain ⟨mid, hmid, h⟩ := h
  have hkept : BooksKept r mid :=
    foldlM_invariant (I := BooksKept r) (fun _ _ _ _ hs hstep => hs.trans (booksKept_embed_gated hstep))
      (.refl r) hmid
  split at h
  · exact Option.some.inj h ▸ hkept
  · simp at h

private theorem booksKept_docify_gated {source_id : Uuid} {ids : List Uuid}
    (h : docify_gated p cached_generation b r fetched source_id = some (r', ids)) : BooksKept r r' := by
  unfold docify_gated at h
  split at h
  · simp only [Option.some.injEq, Prod.mk.injEq] at h
    exact h.1 ▸ .refl r
  · simp only [Option.bind_eq_bind, Option.bind_eq_some_iff, Option.some.injEq, Prod.mk.injEq] at h
    obtain ⟨drafts, -, recorded, hrecord, rfl, -⟩ := h
    exact (booksKept_add_artifacts _).trans (booksKept_generation_record hrecord)

theorem booksKept_process_changed_source {id : Uuid}
    (h : process_changed_source p cached_generation b r fetched = some (r', id)) : BooksKept r r' := by
  unfold process_changed_source at h
  split at h
  · simp only [process_commit_source, Option.bind_eq_bind, Option.bind_eq_some_iff, Option.some.injEq,
      Prod.mk.injEq] at h
    obtain ⟨mid, hembed, rfl, -⟩ := h
    exact (booksKept_upsert_source_item.trans (booksKept_add_artifacts _)).trans
      (booksKept_embed_and_index hembed)
  · simp only [Option.bind_eq_bind, Option.bind_eq_some_iff, Option.some.injEq, Prod.mk.injEq,
      Prod.exists] at h
    obtain ⟨mid, ids, hdocify, indexed, hembed, rfl, -⟩ := h
    exact (booksKept_upsert_source_item.trans (booksKept_docify_gated hdocify)).trans
      (booksKept_embed_and_index hembed)

/-- Neither what the loop has committed nor what it sees has another run table. -/
structure LoopBooks (r : Registry) (s : SourceLoop) : Prop where
  committed : BooksKept r s.committed
  current : BooksKept r s.current

private theorem LoopBooks.rollback {s : SourceLoop} (h : LoopBooks r s) : BooksKept r s.rollback.current :=
  ⟨h.committed.runs, h.committed.uuids, h.current.now.trans (Nat.le_succ _), h.committed.mappings⟩

private theorem loopBooks_fail_source {s : SourceLoop} (h : LoopBooks r s) :
    LoopBooks r (fail_source s fetched) := by
  have hrolled : BooksKept r { s.committed with now := s.current.now + 1 } := h.rollback
  have htouch : ∀ mid : Registry, BooksKept mid (touch_last_seen mid fetched).1 := fun _ => ⟨rfl, le_rfl, le_rfl, id⟩
  unfold fail_source
  simp only [SourceLoop.rollback]
  split
  · rename_i mid prior_id hmid
    have hmid' : BooksKept r mid := by
      have htouched := hrolled.trans (htouch { s.committed with now := s.current.now + 1 })
      rwa [hmid] at htouched
    have hcommit := hmid'.trans (⟨rfl, le_rfl, Nat.le_succ _, id⟩ : BooksKept mid mid.commit)
    exact ⟨hcommit, hcommit⟩
  · rename_i mid hmid
    have htouched := hrolled.trans (htouch { s.committed with now := s.current.now + 1 })
    rw [hmid] at htouched
    exact ⟨h.committed, htouched⟩

theorem loopBooks_process_source {s : SourceLoop} (h : LoopBooks r s) :
    LoopBooks r (process_source p cached_generation b s fetched) := by
  unfold process_source
  split
  · exact ⟨h.committed, h.current⟩
  · split
    · exact ⟨h.committed, h.current.trans ⟨rfl, le_rfl, le_rfl, id⟩⟩
    · split
      · rename_i mid id hprocess
        have hmid := (h.current.trans (booksKept_process_changed_source hprocess)).trans
          (⟨rfl, le_rfl, Nat.le_succ _, fun h => h⟩ : BooksKept mid mid.commit)
        exact ⟨hmid, hmid⟩
      · exact loopBooks_fail_source h

end Loop

section Graph

variable {p : Platform} {b : Build} {r r' : Registry}

private theorem booksKept_upsert_units (units : List CodeUnit) : BooksKept r (upsert_units p r units).1 := by
  refine foldl_invariant (I := fun rows : Registry × Dict String Uuid × List Uuid => BooksKept r rows.1)
    ?_ (.refl r)
  rintro ⟨mid, paths, ids⟩ unit - hmid
  have hunit : BooksKept mid (upsert_unit p mid unit).1 := by
    unfold upsert_unit
    split
    · exact booksKept_upsert_source_item
    · exact ⟨rfl, le_rfl, le_rfl, id⟩
  dsimp only
  split
  · rename_i mid' id heq
    rw [heq] at hunit
    exact hmid.trans hunit
  · rename_i mid' heq
    rw [heq] at hunit
    exact hmid.trans hunit

private theorem booksKept_write_paths {units : List CodeUnit} {unit_source_ids : Dict String Uuid} {repo : String}
    (entries : List (String × List CodeArtifactDraft)) (w : CodeWrites) :
    BooksKept w.registry (entries.foldl (write_path p b units unit_source_ids repo) w).registry := by
  refine foldl_invariant (I := fun w' : CodeWrites => BooksKept w.registry w'.registry) ?_ (.refl _)
  intro w' entry _ hw'
  unfold write_path
  split
  · exact hw'.trans (booksKept_add_artifacts _)
  · exact hw'

private theorem booksKept_write_code_edges {kb_version repo : String} {n : Nat} {drafts : List CodeEdgeDraft}
    {keys : CodeKeyMap} (h : write_code_edges p r kb_version n repo drafts keys = some r') : BooksKept r r' := by
  refine foldlM_invariant (I := BooksKept r) ?_ (.refl r) h
  intro mid draft mid' _ hmid hstep
  simp only [write_code_edge, Option.bind_eq_bind, Option.bind_eq_some_iff] at hstep
  obtain ⟨from_id, -, to_id, -, hstep⟩ := hstep
  split at hstep
  · exact hmid.trans (Option.some.inj hstep ▸ ⟨rfl, Nat.le_succ _, le_rfl, id⟩)
  · exact Option.some.inj hstep ▸ hmid

theorem loopBooks_graphify_one_repo {s s' : SourceLoop} {entry : String × List CodeUnit} (h : LoopBooks r s)
    (hstep : graphify_one_repo p b s entry = some s') : LoopBooks r s' := by
  obtain ⟨repo, units⟩ := entry
  simp only [graphify_one_repo] at hstep
  split at hstep
  · exact Option.some.inj hstep ▸ ⟨h.committed, h.current⟩
  · simp only [Option.bind_eq_bind, Option.bind_eq_some_iff, Option.some.injEq, Prod.exists,
      write_repo_artifacts, Prod.mk.injEq] at hstep
    obtain ⟨staged, keys, ids, ⟨indexed, hindex, rfl, rfl, rfl⟩, written, hedges, rfl⟩ := hstep
    refine ⟨h.committed, h.current.trans (BooksKept.trans ?_ (booksKept_write_code_edges hedges))⟩
    refine BooksKept.trans ?_ (booksKept_embed_and_index hindex)
    exact BooksKept.trans (booksKept_upsert_units units)
      (booksKept_write_paths _ { registry := (upsert_units p s.current units).1, code_key_map := s.code_key_map })

/-- However the source loop ends. -/
theorem loopBooks_process_sources {s : SourceLoop} (h : process_sources p cached_generation b r = .error s ∨
    process_sources p cached_generation b r = .ok s) : LoopBooks r s := by
  have hloop : ∀ listing : List NormalizedContent, LoopBooks r
      (listing.foldl (process_source p cached_generation b) { committed := r, current := r }) := fun listing =>
    foldl_invariant (fun _ _ _ hs => loopBooks_process_source hs) ⟨.refl r, .refl r⟩
  have htouched : ∀ {s : SourceLoop} (units : List CodeUnit), LoopBooks r s →
      LoopBooks r (units.foldl touch_unit s) := fun units hs =>
    foldl_invariant (fun _ _ _ hs => ⟨hs.committed, hs.current.trans ⟨rfl, le_rfl, le_rfl, id⟩⟩) hs
  unfold process_sources at h
  dsimp only at h
  split at h
  · rcases h with h | h
    · exact Except.error.inj h ▸ hloop _
    · simp at h
  · split at h
    · split at h
      · rcases h with h | h
        · exact Except.error.inj h ▸ hloop _
        · simp at h
      · split at h
        · rename_i s' hrun
          rcases h with h | h
          · simp at h
          · have hs' : LoopBooks r s' :=
              foldlM_invariant (fun _ _ _ _ hs hstep => loopBooks_graphify_one_repo hs hstep) (hloop _) hrun
            have hcommit := hs'.current.trans (⟨rfl, le_rfl, Nat.le_succ _, id⟩ : BooksKept s'.current s'.current.commit)
            exact Except.ok.inj h ▸ ⟨hcommit, hcommit⟩
        · rcases h with h | h
          · exact Except.error.inj h ▸ hloop _
          · simp at h
    · rcases h with h | h
      · simp at h
      · exact Except.ok.inj h ▸ htouched _ (hloop _)

end Graph

section Passes

variable {p : Platform} {b : Build} {r r' : Registry} {n : Nat}

private theorem booksKept_upsert_edge {source : EdgeSource} {key : Uuid × Uuid × EdgeType}
    {row : Uuid → KnowledgeEdge} {set : KnowledgeEdge → KnowledgeEdge}
    (h : upsert_edge p r source key row set = some r') : BooksKept r r' := by
  unfold upsert_edge at h
  dsimp only at h
  split at h
  · exact Option.some.inj h ▸ ⟨rfl, le_rfl, le_rfl, id⟩
  · split at h
    · exact Option.some.inj h ▸ ⟨rfl, Nat.le_succ _, le_rfl, id⟩
    · simp at h

private theorem booksKept_run_linker {kb_version : String} {similarity : Option SimilarityProvider}
    (h : run_linker p r kb_version n similarity = some r') : BooksKept r r' := by
  simp only [run_linker, write_link_edges, Option.bind_eq_bind, Option.bind_eq_some_iff,
    Option.some.injEq] at h
  obtain ⟨drafts, -, mid, hmid, rfl⟩ := h
  have hlinks : BooksKept r mid :=
    foldlM_invariant (I := BooksKept r) (fun _ _ _ _ hs hstep => hs.trans (booksKept_upsert_edge hstep))
      (.refl r) hmid
  exact hlinks.trans ⟨rfl, le_rfl, le_rfl, id⟩

private theorem booksKept_judge_links (h : judge_links p b n r = some r') : BooksKept r r' := by
  unfold judge_links at h
  split at h
  · simp only [run_judge, Option.bind_eq_bind, Option.bind_eq_some_iff, Option.some.injEq, Prod.exists] at h
    obtain ⟨mid, computed, hmid, rfl⟩ := h
    have hruled : BooksKept r mid := by
      refine foldlM_invariant (I := fun state : Registry × List (Uuid × Uuid × EdgeType) =>
        BooksKept r state.1) ?_ (.refl r) hmid
      rintro ⟨s, links⟩ cand ⟨s', links'⟩ - hs hstep
      simp only [judge_candidate, Option.bind_eq_bind, Option.bind_eq_some_iff, Prod.exists] at hstep
      obtain ⟨ruled, judgment, hruling, hstep⟩ := hstep
      have hcached : BooksKept s ruled := by
        obtain ⟨judgments, rfl⟩ := eq_of_judgment_of hruling
        exact ⟨rfl, le_rfl, le_rfl, id⟩
      split at hstep
      · simp only [Option.some.injEq, Prod.mk.injEq] at hstep
        exact hstep.1 ▸ hs.trans hcached
      · simp only [Option.bind_eq_some_iff, Option.some.injEq, Prod.mk.injEq] at hstep
        obtain ⟨written, hwrite, rfl, -⟩ := hstep
        exact (hs.trans hcached).trans (booksKept_upsert_edge hwrite)
    split
    · exact hruled
    · exact hruled.trans ⟨rfl, le_rfl, le_rfl, id⟩
  · exact Option.some.inj h ▸ .refl r

private theorem booksKept_apply_rename {rename : Rename} (h : apply_rename n r rename = some r') :
    BooksKept r r' := by
  simp only [apply_rename, Option.bind_eq_bind, Option.bind_eq_some_iff, Option.some.injEq] at h
  obtain ⟨mid, hmid, rfl⟩ := h
  have hreattached : BooksKept r mid := by
    refine foldlM_invariant (I := BooksKept r) (fun s side s' _ hs hstep => ?_) ?_ hmid
    · unfold reattach_side at hstep
      dsimp only at hstep
      rw [Option.ite_none_right_eq_some, Option.some.injEq] at hstep
      exact hstep.2 ▸ hs.trans ⟨rfl, le_rfl, le_rfl, id⟩
    · exact ⟨rfl, le_rfl, le_rfl, id⟩
  exact hreattached.trans ⟨rfl, le_rfl, le_rfl, id⟩

private theorem booksKept_run_invalidation_pass {seen changed : List Uuid} {started_at : Timestamp}
    (h : run_invalidation_pass r n seen changed started_at = some r') : BooksKept r r' := by
  simp only [run_invalidation_pass, Option.bind_eq_bind, Option.bind_eq_some_iff, Option.some.injEq] at h
  obtain ⟨renamed, hrenamed, rfl⟩ := h
  have hrenames : BooksKept r renamed := foldlM_invariant (I := BooksKept r)
    (fun _ _ _ _ hs hstep => hs.trans (booksKept_apply_rename hstep)) (.refl r) hrenamed
  have hacl : ∀ mid : Registry, BooksKept mid (propagate_acl mid seen) := by
    intro mid
    unfold propagate_acl
    refine foldl_invariant (I := BooksKept mid) ?_ (.refl mid)
    exact fun _ _ _ hs => hs.trans ⟨rfl, le_rfl, le_rfl, id⟩
  have hsweeps : ∀ mid ids, BooksKept mid (supersession_sweep (deletion_sweep mid n ids) n changed) :=
    fun mid ids => ⟨rfl, le_rfl, le_rfl, fun hbacked row hrow => hbacked row (List.mem_of_mem_filter hrow)⟩
  exact (hrenames.trans (hsweeps _ _)).trans (hacl _)

private theorem booksKept_write_alias {kb_version : String} {revive : Bool} {prior : Option KnowledgeArtifact}
    {desired : DesiredAlias} : BooksKept r (write_alias p kb_version n revive r prior desired).1 := by
  unfold write_alias
  cases prior with
  | none => exact booksKept_add_artifacts _
  | some row =>
    dsimp only
    split
    · exact .refl r
    · exact ⟨rfl, le_rfl, le_rfl, id⟩

private theorem booksKept_run_alias_miner {kb_version : String} :
    BooksKept r (run_alias_miner p r kb_version n) := by
  have hartifacts : ∀ (mid : Registry) (aggregates : List AliasAggregate)
      (prior_rows : Dict String KnowledgeArtifact) (desired : AliasAggregate → Option DesiredAlias),
      BooksKept mid (reconcile_artifacts p mid kb_version n aggregates prior_rows desired).1 := by
    intro mid aggregates prior_rows desired
    apply reconcile_artifacts_rule (I := BooksKept mid)
    · exact fun _ _ _ _ _ hs => hs.trans booksKept_write_alias
    · exact fun _ hs => hs.trans ⟨rfl, le_rfl, le_rfl, id⟩
    · exact .refl mid
  have hedges : ∀ (mid : Registry) (desired : Dict (Uuid × Uuid) DesiredEdge),
      BooksKept mid (reconcile_edges p mid kb_version n desired) := by
    intro mid desired
    refine foldl_invariant (I := BooksKept mid) (fun _ _ _ hs => ?_) ⟨rfl, le_rfl, le_rfl, id⟩
    exact hs.trans ⟨rfl, Nat.le_succ _, le_rfl, id⟩
  have hretired : BooksKept r (retire_aliases r n (duplicate_rows (alias_rows r n))) := ⟨rfl, le_rfl, le_rfl, id⟩
  exact (hretired.trans (hartifacts _ _ _ _)).trans (hedges _ _)

private theorem booksKept_run_ledger_alias_miner {kb_version : String} {events : List RetrievalEvent}
    {window_start : Timestamp} : BooksKept r (run_ledger_alias_miner p r kb_version n events window_start) := by
  have hwrites : ∀ wanted : List DesiredAlias, BooksKept r (wanted.foldl (fun mid desired =>
      (write_alias p kb_version n false mid ((ledger_rows r).get? desired.phrase) desired).1) r) :=
    fun wanted => foldl_invariant (fun _ _ _ hs => hs.trans booksKept_write_alias) (.refl r)
  exact (hwrites _).trans ⟨rfl, le_rfl, le_rfl, id⟩

theorem booksKept_finalize_graph {seen changed : List Uuid} {started_at : Timestamp} {passes : Finalized}
    (h : finalize_graph p b r seen changed started_at = some passes) : BooksKept r passes.mined := by
  simp only [finalize_graph, Option.bind_eq_bind, Option.bind_eq_some_iff, Option.some.injEq] at h
  obtain ⟨linked, hlinked, judged, hjudged, invalidated, hinvalidated, rfl⟩ := h
  have hgenerated := (booksKept_run_linker hlinked).trans
    (⟨rfl, le_rfl, le_rfl, id⟩ : BooksKept linked (run_candidate_generator p linked b.kb_version b.similarity))
  have hinvalid := (hgenerated.trans (booksKept_judge_links hjudged)).trans
    (booksKept_run_invalidation_pass hinvalidated)
  exact (hinvalid.trans booksKept_run_alias_miner).trans booksKept_run_ledger_alias_miner

end Passes

/-- A build starts its run, keeps the books, and finishes its run. -/
theorem books_next (p : Platform) (r : Registry) (b : Build) :
    ∃ r' status extractor_failures, BooksKept (start_run p r b.kb_version) r' ∧
      next p cached_generation r b = finish_run r' (r.fresh p) status extractor_failures := by
  have hfail : ∀ s, LoopBooks (start_run p r b.kb_version) s → ∃ r' status extractor_failures,
      BooksKept (start_run p r b.kb_version) r' ∧
        (fail_run (r.fresh p) s).registry = finish_run r' (r.fresh p) status extractor_failures := fun s hs =>
    ⟨s.rollback.current, .failed, s.extractor_failures, hs.rollback, rfl⟩
  unfold next run
  dsimp only
  split
  · rename_i s hs
    exact hfail s (loopBooks_process_sources (.inl hs))
  · rename_i s hs
    have hloop := loopBooks_process_sources (.inr hs)
    split
    · exact hfail s hloop
    · split
      · rename_i passes hpasses
        exact ⟨passes.mined, .completed, s.extractor_failures,
          hloop.current.trans (booksKept_finalize_graph hpasses), rfl⟩
      · exact hfail s hloop

/-- A build adds its own run, under the next random id, and finishes it. -/
theorem runs_next (p : Platform) (r : Registry) (b : Build) :
    r.uuids + 1 ≤ (next p cached_generation r b).uuids ∧ ∃ status extractor_failures,
      (next p cached_generation r b).runs =
        update_where (start_run p r b.kb_version).runs (fun run => run.build_id == r.fresh p) fun run =>
          { run with status, extractor_failures } := by
  obtain ⟨r', status, extractor_failures, hkept, heq⟩ := books_next p r b
  rw [heq]
  exact ⟨hkept.uuids, status, extractor_failures, by rw [← hkept.runs]; rfl⟩

theorem mappingsBacked_next {p : Platform} {r : Registry} {b : Build} (h : MappingsBacked r) :
    MappingsBacked (next p cached_generation r b) := by
  obtain ⟨r', status, extractor_failures, hkept, heq⟩ := books_next p r b
  rw [heq]
  exact hkept.mappings h

end AgenticKb

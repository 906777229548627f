import AgenticKb.Effects.Bookkeeping
import AgenticKb.Effects.Build

open AgenticKb.Lib

namespace AgenticKb

/-- What a reader sees of a served artifact; its source goes by type and address. -/
structure ServedArtifact where
  artifact_type : ArtifactType
  title : Option String
  body_text : Option BodyText
  acl_teams : List String
  source : Option (SourceType × String)
deriving DecidableEq, Repr

/-- The version of the last completed build. -/
def last_completed (r : Registry) : Option Nat :=
  ((r.runs.filter fun run => run.status == .completed).map (·.build_seq)).getLast?

/-- What the last completed build serves. -/
def served_artifacts (r : Registry) : List ServedArtifact :=
  (r.artifacts.filter fun a => (last_completed r).any fun n => a.MemberAt n).map fun a =>
    { artifact_type := a.artifact_type, title := a.title, body_text := a.body_text, acl_teams := a.acl_teams
      source := (r.source_of a.source_id).map (·.key) }

/-- With the cache and without it the builds end up serving the same. -/
def CacheTransparent (p : Platform) (builds : List Build) : Prop :=
  (∀ a ∈ served_artifacts (history p cached_generation builds),
      a ∈ served_artifacts (history p uncached_generation builds)) ∧
    ∀ a ∈ served_artifacts (history p uncached_generation builds),
      a ∈ served_artifacts (history p cached_generation builds)

instance (p : Platform) (builds : List Build) : Decidable (CacheTransparent p builds) :=
  inferInstanceAs (Decidable ((∀ a ∈ _, a ∈ _) ∧ ∀ a ∈ _, a ∈ _))

/-- A changed document misses the cache; or it hits an empty output, and its extraction is empty. -/
def ExtractsAnew (p : Platform) (b : Build) (s : SourceLoop) (fetched : NormalizedContent) : Prop :=
  is_code_file fetched = false → is_unchanged s.current fetched = false →
    fetched.source.source_type ≠ .git_metadata →
      cached_generation.lookup s.current (generation_key p b fetched) = none ∨
        cached_generation.lookup s.current (generation_key p b fetched) = some [] ∧ b.extract fetched = some []

instance (p : Platform) (b : Build) (s : SourceLoop) (fetched : NormalizedContent) :
    Decidable (ExtractsAnew p b s fetched) := inferInstanceAs (Decidable (_ → _ → _ → _ ∨ _))

/-- Every changed document of the build is extracted anew. -/
def AllExtractAnew (p : Platform) (r : Registry) (b : Build) : Prop :=
  Along (process_source p cached_generation b) (ExtractsAnew p b) (.start (start_run p r b.kb_version))
    (b.turns p)

instance (p : Platform) (r : Registry) (b : Build) : Decidable (AllExtractAnew p r b) := decidableAlong _ _ _ _

section Record

variable {r : Registry} {key hash : String}

/-- The mapping of a new key: each position is inserted once, by induction on those inserted so far. -/
private theorem insert_mappings {rows : List GenerationCacheArtifact} (hnew : ∀ row ∈ rows, row.cache_key ≠ key)
    (ids : List Uuid) :
    ∃ rows', (ids.zipIdx.foldlM (fun rows (artifact_id, position) =>
        GenerationCacheGate.insert_mapping rows { cache_key := key, artifact_id, position }) rows) = some rows' ∧
      ∀ row ∈ rows', row.cache_key = key → row.position < ids.length := by
  induction ids using List.reverseRecOn with
  | nil => exact ⟨rows, rfl, fun row hrow hkey => absurd hkey (hnew row hrow)⟩
  | append_singleton ids id ih =>
    obtain ⟨rows', hrows', hpositions⟩ := ih
    have hfree : (rows'.any fun old => old.cache_key == key && old.position == ids.length) = false := by
      rw [List.any_eq_false]
      intro row hrow
      simp only [Bool.and_eq_true, beq_iff_eq, not_and]
      intro hkey hposition
      have := hpositions row hrow hkey
      omega
    rw [List.zipIdx_append, List.foldlM_append, hrows']
    simp only [List.zipIdx_singleton, Nat.zero_add, Option.bind_eq_bind, Option.bind_some, List.foldlM_cons,
      List.foldlM_nil, Option.pure_def, Option.bind_fun_some, GenerationCacheGate.insert_mapping,
      List.length_append, List.length_singleton]
    split
    · refine ⟨rows', rfl, fun row hrow hkey => ?_⟩
      have := hpositions row hrow hkey
      omega
    · rw [hfree]
      refine ⟨_, rfl, fun row hrow hkey => ?_⟩
      rcases List.mem_append.1 hrow with hold | hnew
      · have := hpositions row hold hkey
        omega
      · rw [List.mem_singleton.1 hnew]
        exact Nat.lt_succ_self _

theorem cached_lookup_eq_none (h : cached_generation.lookup r key = none) :
    ∀ entry ∈ r.generation_cache, entry.cache_key ≠ key := by
  simp only [cached_generation, Option.map_eq_none_iff, GenerationCacheGate.lookup, List.find?_eq_none,
    beq_iff_eq] at h
  exact h

/-- Recording a key that misses does not raise. -/
theorem record_of_miss (hash : String) (hbacked : MappingsBacked r) (hmiss : cached_generation.lookup r key = none)
    (ids : List Uuid) : (GenerationCacheGate.record r key hash ids).isSome = true := by
  have hnew : ∀ row ∈ r.generation_cache_artifacts, row.cache_key ≠ key := by
    intro row hrow hkey
    obtain ⟨entry, hentry, heq⟩ := hbacked row hrow
    exact cached_lookup_eq_none hmiss entry hentry (heq.trans hkey)
  obtain ⟨rows', hrows', -⟩ := insert_mappings hnew ids
  simp only [GenerationCacheGate.record, hrows', Option.bind_eq_bind, Option.bind_some, Option.isSome_some]

/-- Recording an empty output again changes nothing. -/
theorem record_of_empty_hit {ids : List Uuid} (hhit : cached_generation.lookup r key = some ids) :
    GenerationCacheGate.record r key hash [] = some r := by
  simp only [cached_generation, Option.map_eq_some_iff, GenerationCacheGate.lookup] at hhit
  obtain ⟨entry, hentry, -⟩ := hhit
  have hany : (r.generation_cache.any fun row => row.cache_key == key) = true :=
    List.any_eq_true.2 ⟨entry, List.mem_of_find?_eq_some hentry, by simpa using List.find?_some hentry⟩
  simp only [GenerationCacheGate.record, hany, if_true, List.zipIdx_nil, List.foldlM_nil, Option.pure_def,
    Option.bind_eq_bind, Option.bind_some]

end Record

section Gates

variable {p : Platform} {b : Build} {r : Registry} {s : SourceLoop} {fetched : NormalizedContent}

/-- Advancing a source row leaves the generation cache alone. -/
theorem generation_cache_upsert_source_item (p : Platform) (r : Registry) (fetched : NormalizedContent) :
    (upsert_source_item p r fetched).1.generation_cache = r.generation_cache ∧
      (upsert_source_item p r fetched).1.generation_cache_artifacts = r.generation_cache_artifacts := by
  unfold upsert_source_item
  cases source_row r fetched <;> exact ⟨rfl, rfl⟩

theorem cached_lookup_congr {r' : Registry} {key : String} (hcache : r'.generation_cache = r.generation_cache)
    (hmappings : r'.generation_cache_artifacts = r.generation_cache_artifacts) :
    cached_generation.lookup r' key = cached_generation.lookup r key := by
  simp only [cached_generation, GenerationCacheGate.lookup, GenerationCacheGate.lookup_artifact_ids, hcache,
    hmappings]

/-- A document that is extracted anew comes out the same with the cache and without it. -/
theorem docify_gated_eq (hbacked : MappingsBacked r) (source_id : Uuid)
    (h : cached_generation.lookup r (generation_key p b fetched) = none ∨
      cached_generation.lookup r (generation_key p b fetched) = some [] ∧ b.extract fetched = some []) :
    docify_gated p cached_generation b r fetched source_id =
      docify_gated p uncached_generation b r fetched source_id := by
  rcases h with hmiss | ⟨hhit, hempty⟩
  · simp only [docify_gated, hmiss]
    cases hextract : b.extract fetched with
    | none => rfl
    | some drafts =>
      simp only [Option.bind_eq_bind, Option.bind_some, uncached_generation]
      have hrecord := record_of_miss fetched.content_hash
        (r := (write_doc_artifacts p r (source_id, fetched.content_hash) b.kb_version r.build_seq
          fetched.source.acl_teams drafts).1) hbacked (cached_lookup_congr rfl rfl ▸ hmiss)
        (write_doc_artifacts p r (source_id, fetched.content_hash) b.kb_version r.build_seq
          fetched.source.acl_teams drafts).2
      obtain ⟨recorded, hrecorded⟩ := Option.isSome_iff_exists.1 hrecord
      simp only [cached_generation, hrecorded, Option.getD_some, Option.bind_some]
  · have hwritten : write_doc_artifacts p r (source_id, fetched.content_hash) b.kb_version r.build_seq
        fetched.source.acl_teams [] = (r, []) := by
      simp [write_doc_artifacts, Registry.add_artifacts]
    simp only [docify_gated, hhit, uncached_generation, hempty, Option.bind_eq_bind, Option.bind_some, hwritten,
      record_of_empty_hit hhit, Option.getD_some]

theorem process_source_eq (hbacked : MappingsBacked s.current) (hok : ExtractsAnew p b s fetched) :
    process_source p cached_generation b s fetched = process_source p uncached_generation b s fetched := by
  unfold process_source
  split
  · rfl
  · rename_i hprose
    split
    · rfl
    · rename_i hchanged
      have hprocess : process_changed_source p cached_generation b s.current fetched =
          process_changed_source p uncached_generation b s.current fetched := by
        unfold process_changed_source
        split
        · rfl
        · rename_i htype
          obtain ⟨hcache, hmappings⟩ := generation_cache_upsert_source_item p s.current fetched
          have hanew := hok (by simpa using hprose) (by simpa using hchanged) (by simpa using htype)
          rw [← cached_lookup_congr hcache hmappings] at hanew
          have hbacked' : MappingsBacked (upsert_source_item p s.current fetched).1 :=
            booksKept_upsert_source_item.mappings hbacked
          dsimp only
          rw [docify_gated_eq hbacked' _ hanew]
      rw [hprocess]

/-- The rest of the source loop does not ask the cache. -/
theorem process_sources_congr {gate gate' : GenerationGate}
    (h : (b.turns p).foldl (process_source p gate b) (.start r) =
      (b.turns p).foldl (process_source p gate' b) (.start r)) :
    process_sources p gate b r = process_sources p gate' b r := by
  unfold process_sources
  cases hfault : b.fault with
  | none =>
    simp only [Build.turns, hfault, SourceLoop.start] at h
    simp only [h]
  | some fault =>
    cases fault <;>
    · simp only [Build.turns, hfault, SourceLoop.start] at h
      simp only [h]

theorem next_eq (hbacked : MappingsBacked r) (hok : AllExtractAnew p r b) :
    next p cached_generation r b = next p uncached_generation r b := by
  have hloop := hok.foldl_congr (process_source p uncached_generation b)
    (I := LoopBooks (start_run p r b.kb_version)) (fun _ _ _ hs _ => loopBooks_process_source hs)
    (fun s fetched _ hs hturn => process_source_eq (hs.current.mappings hbacked) hturn) ⟨.refl _, .refl _⟩
  simp only [next, run, process_sources_congr hloop]

/-- The cache is transparent to every sequence of builds in which the changed documents are extracted
anew. -/
theorem cacheTransparent_history (builds : List Build)
    (hok : Along (next p cached_generation) (AllExtractAnew p) Registry.empty builds) :
    CacheTransparent p builds := by
  have hsame : history p cached_generation builds = history p uncached_generation builds := by
    refine hok.foldl_congr _ (I := MappingsBacked) ?_ (fun r b _ hbacked hb => next_eq hbacked hb) ?_
    · exact fun r b _ hbacked _ => mappingsBacked_next hbacked
    · simp [MappingsBacked, Registry.empty]
  rw [CacheTransparent, hsame]
  exact ⟨fun _ h => h, fun _ h => h⟩

/-- A page changes twice, each time to a new text. -/
theorem cacheTransparent_new_texts :
    CacheTransparent .plain [page_build [("d", "A")], page_build [("d", "B")], page_build [("d", "C")]] :=
  cacheTransparent_history _ (by decide +kernel)

/-- A page goes back to its first text. The hit answers with the rows of the first build, which the second
has retired, so that nothing of the page is served. -/
theorem reverted_page_not_served :
    AllComplete .plain [page_build [("d", "A")], page_build [("d", "B")], page_build [("d", "A")]] ∧
      ¬ CacheTransparent .plain [page_build [("d", "A")], page_build [("d", "B")], page_build [("d", "A")]] := by
  decide +kernel

end Gates

end AgenticKb

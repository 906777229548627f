import AgenticKb.Application.WriteArtifacts
import AgenticKb.Graphify.Write
import AgenticKb.Application.CacheGates
import AgenticKb.Application.Invalidation
import AgenticKb.Linker.Run
import AgenticKb.Linker.Judge
import AgenticKb.Alias.LedgerMining

open AgenticKb.Lib

namespace AgenticKb

/-- The generation cache as the build runner uses it: a hit answers with the output artifact ids. -/
structure GenerationGate where
  lookup : Registry → String → Option (List Uuid)
  record : Registry → String → String → List Uuid → Option Registry

/-- The gate the build runner is wired to. -/
def cached_generation : GenerationGate where
  lookup r cache_key := (GenerationCacheGate.lookup r cache_key).map fun _ =>
    GenerationCacheGate.lookup_artifact_ids r cache_key
  record := GenerationCacheGate.record

/-- The reference for it: every lookup misses, and recording never fails. -/
def uncached_generation : GenerationGate where
  lookup _ _ := none
  record r cache_key input_hash ids :=
    some ((GenerationCacheGate.record r cache_key input_hash ids).getD r)

/-- One current code file collected for the whole-tree pass. -/
structure CodeUnit where
  fetched : NormalizedContent
  path : String
  repo : String
  changed : Bool
deriving DecidableEq, Repr

/-- The source loop between two sources: what has been committed, what the open transaction sees,
and what the loop has gathered. `failed` is a history variable. -/
structure SourceLoop where
  committed : Registry
  current : Registry
  seen : List Uuid := []
  changed : List Uuid := []
  code_units : List CodeUnit := []
  any_code_changed : Bool := false
  code_key_map : CodeKeyMap := []
  extractor_failures : Nat := 0
  /-- The listed contents that failed. -/
  failed : List NormalizedContent := []

/-- A commit ends the open transaction; the next one starts later. -/
def Registry.commit (r : Registry) : Registry := { r with now := r.now + 1 }

def SourceLoop.commit (s : SourceLoop) : SourceLoop :=
  { s with committed := s.current.commit, current := s.current.commit }

def SourceLoop.rollback (s : SourceLoop) : SourceLoop :=
  { s with current := { s.committed with now := s.current.now + 1 } }

/-- The row of a fetched source, by type and uri. -/
def same_source (fetched : NormalizedContent) (s : SourceItem) : Bool :=
  s.source_type == fetched.source.source_type && s.source_uri == fetched.source.source_uri

def source_row (r : Registry) (fetched : NormalizedContent) : Option SourceItem :=
  r.source_items.find? (same_source fetched)

/-- Refresh `last_seen_at` and the access list of an existing row, and nothing else of it. -/
def touch_last_seen (r : Registry) (fetched : NormalizedContent) : Registry × Option Uuid :=
  ({ r with
      source_items := update_where r.source_items (same_source fetched) fun s =>
        { s with last_seen_at := some r.now, acl_teams := fetched.source.acl_teams } },
    (source_row r fetched).map (·.source_id))

/-- The stored content hash equals the fetched one. -/
def is_unchanged (r : Registry) (fetched : NormalizedContent) : Bool :=
  (source_row r fetched).any fun s => s.content_hash == fetched.content_hash

/-- Insert the source's row, or heal the row of its type and uri; either way it is live. -/
def upsert_source_item (p : Platform) (r : Registry) (fetched : NormalizedContent) :
    Registry × Uuid :=
  let ref := fetched.source
  match source_row r fetched with
  | some existing =>
    ({ r with
        source_items := update_where r.source_items (same_source fetched) fun s =>
          { s with
            source_version := ref.source_version, repo := ref.repo, branch := ref.branch
            path := ref.path, external_id := ref.external_id, acl_teams := ref.acl_teams
            content_hash := fetched.content_hash, last_seen_at := some r.now, is_deleted := false } },
      existing.source_id)
  | none =>
    ({ r with
        uuids := r.uuids + 1
        source_items := r.source_items ++ [
          { source_id := r.fresh p, source_type := ref.source_type, source_uri := ref.source_uri
            source_version := ref.source_version, repo := ref.repo, branch := ref.branch
            path := ref.path, external_id := ref.external_id, content_hash := fetched.content_hash
            last_seen_at := some r.now, acl_teams := ref.acl_teams, is_deleted := false
            created_at := r.now }] },
      r.fresh p)

section Sources

variable (p : Platform) (gate : GenerationGate) (b : Build)

/-- Embed an artifact's body unless the embedding cache has its vector. -/
def embed_gated (r : Registry) (artifact_id : Uuid) : Option Registry :=
  match (r.artifacts.find? fun a => a.artifact_id == artifact_id).bind (·.body_text) with
  | none => some r
  | some body =>
    let text := p.body_string body
    match EmbeddingCacheGate.lookup r artifact_id (p.content_hash text) b.embedding_model with
    | some _ => some r
    | none => do
      let (vector, embedding_hash) ← b.embed text
      some (EmbeddingCacheGate.record r artifact_id (p.content_hash text) b.embedding_model
        embedding_hash vector)

/-- Embed and index the artifacts of one changed source. -/
def embed_and_index (r : Registry) (artifact_ids : List Uuid) : Option Registry := do
  let r ← artifact_ids.foldlM (embed_gated p b) r
  if artifact_ids.isEmpty || b.upsert_documents artifact_ids then some r else none

def generation_key (fetched : NormalizedContent) : String :=
  doc_extract_cache_key p fetched.content_hash DOC_EXTRACT_PROMPT_VERSION b.model_name
    b.model_params_hash OUTPUT_SCHEMA_VERSION

/-- Cache-gated document extraction: a hit answers with the recorded artifacts, a miss extracts,
writes and records. -/
def docify_gated (r : Registry) (fetched : NormalizedContent) (source_id : Uuid) :
    Option (Registry × List Uuid) :=
  match gate.lookup r (generation_key p b fetched) with
  | some ids => some (r, ids)
  | none => do
    let drafts ← b.extract fetched
    let (r, ids) := write_doc_artifacts p r (source_id, fetched.content_hash) b.kb_version r.build_seq
      fetched.source.acl_teams drafts
    let r ← gate.record r (generation_key p b fetched) fetched.content_hash ids
    some (r, ids)

/-- One deterministic commit artifact, no model. -/
def process_commit_source (r : Registry) (fetched : NormalizedContent) : Option (Registry × Uuid) := do
  let (r, source_id) := upsert_source_item p r fetched
  let short := take_chars fetched.source.source_version 12
  let title := if short = "" then fetched.source.source_version else short
  let (r, ids) := write_commit_artifact p r (source_id, fetched.content_hash) b.kb_version r.build_seq
    title fetched.text (parse_changed_files p.unicode fetched.text) fetched.source.repo
  let r ← embed_and_index p b r ids
  some (r, source_id)

/-- One changed source outside the code tree; `none` when any step raises. -/
def process_changed_source (r : Registry) (fetched : NormalizedContent) : Option (Registry × Uuid) :=
  if fetched.source.source_type == .git_metadata then process_commit_source p b r fetched
  else do
    let (r, source_id) := upsert_source_item p r fetched
    let (r, ids) ← docify_gated p gate b r fetched source_id
    let r ← embed_and_index p b r ids
    some (r, source_id)

/-- A code file of a whole tree. -/
def is_code_file (fetched : NormalizedContent) : Bool :=
  fetched.source.source_type == .github_code && fetched.source.path.any (· ≠ "")

/-- A failed source is rolled back; its row, if it has one, still counts as seen. -/
def fail_source (s : SourceLoop) (fetched : NormalizedContent) : SourceLoop :=
  let s := s.rollback
  let s := { s with extractor_failures := s.extractor_failures + 1, failed := s.failed ++ [fetched] }
  match touch_last_seen s.current fetched with
  | (r, some prior_id) => { s with current := r, seen := s.seen ++ [prior_id] }.commit
  | (r, none) => { s with current := r }

/-- One turn of the source loop. -/
def process_source (s : SourceLoop) (fetched : NormalizedContent) : SourceLoop :=
  if is_code_file fetched then
    let changed := !is_unchanged s.current fetched
    { s with
      any_code_changed := s.any_code_changed || changed
      code_units := s.code_units ++
        [⟨fetched, fetched.source.path.getD "", fetched.source.repo.getD "", changed⟩] }
  else if is_unchanged s.current fetched then
    let (r, source_id) := touch_last_seen s.current fetched
    { s with current := r, seen := s.seen ++ source_id.toList }
  else
    match process_changed_source p gate b s.current fetched with
    | some (r, changed_id) =>
      { s.commit with
        committed := r.commit, current := r.commit
        seen := s.seen ++ [changed_id], changed := s.changed ++ [changed_id] }
    | none => fail_source s fetched

/-- Advance the row of one code file in the transaction that writes its artifacts. -/
def upsert_unit (r : Registry) (unit : CodeUnit) : Registry × Option Uuid :=
  if unit.changed then
    let (r, source_id) := upsert_source_item p r unit.fetched
    (r, some source_id)
  else touch_last_seen r unit.fetched

/-- Advance the rows of a repo's files; the source ids come back by path and as a list. -/
def upsert_units (r : Registry) (units : List CodeUnit) : Registry × Dict String Uuid × List Uuid :=
  units.foldl (fun (r, unit_source_ids, ids) unit =>
    match upsert_unit p r unit with
    | (r, some id) => (r, Dict.set unit_source_ids unit.path id, ids ++ [id])
    | (r, none) => (r, unit_source_ids, ids)) (r, [], [])

/-- The artifacts one repo pass writes: the registry, the keys and the ids so far. -/
structure CodeWrites where
  registry : Registry
  code_key_map : CodeKeyMap
  artifact_ids : List Uuid := []

/-- Write the drafts of one path, if it is a file of this repo. -/
def write_path (units : List CodeUnit) (unit_source_ids : Dict String Uuid) (repo : String)
    (w : CodeWrites) (entry : String × List CodeArtifactDraft) : CodeWrites :=
  match units.reverse.find? fun unit => unit.path == entry.1, unit_source_ids.get? entry.1 with
  | some unit, some source_id =>
    let (r, key_to_id) := write_code_artifacts p w.registry (source_id, unit.fetched.content_hash)
      b.kb_version w.registry.build_seq unit.fetched.source.acl_teams entry.2
    { registry := r
      code_key_map := key_to_id.foldl (fun map (key, id) => Dict.set map (repo, key) id) w.code_key_map
      artifact_ids := w.artifact_ids ++ key_to_id.map (·.2) }
  | _, _ => w

def drafts_by_path (drafts : List CodeArtifactDraft) : Dict String (List CodeArtifactDraft) :=
  drafts.foldl (fun (d : Dict String (List CodeArtifactDraft)) draft =>
    d.append_to (path_of_code_key draft.key) draft) []

/-- The rows and artifacts of one repo, before its edges: the registry, the keys and the ids of the
sources. -/
def write_repo_artifacts (s : SourceLoop) (repo : String) (units : List CodeUnit)
    (drafts : List CodeArtifactDraft) : Option (Registry × CodeKeyMap × List Uuid) := do
  let (r, unit_source_ids, ids) := upsert_units p s.current units
  let w := (drafts_by_path drafts).foldl (write_path p b units unit_source_ids repo)
    { registry := r, code_key_map := s.code_key_map }
  let r ← embed_and_index p b w.registry w.artifact_ids
  some (r, w.code_key_map, ids)

/-- Rewrite the whole code graph of one repo. Graphify failing leaves the repo as it was; any other
failure raises. -/
def graphify_one_repo (s : SourceLoop) (entry : String × List CodeUnit) : Option SourceLoop :=
  let (repo, units) := entry
  match b.graphify_tree (units.map fun unit => (unit.path, unit.fetched.text)) with
  | none => some
      { s with
        extractor_failures := s.extractor_failures + 1
        failed := s.failed ++ units.map (·.fetched) }
  | some result => do
    let (r, code_key_map, ids) ← write_repo_artifacts p b s repo units result.artifacts
    let r ← write_code_edges p r b.kb_version r.build_seq repo result.edges code_key_map
    some { s with current := r, code_key_map, seen := s.seen ++ ids, changed := s.changed ++ ids }

def units_by_repo (units : List CodeUnit) : Dict String (List CodeUnit) :=
  sorted (fun a b => str_le a.1 b.1) <| units.foldl (fun (d : Dict String (List CodeUnit)) unit =>
    d.append_to unit.repo unit) []

def graphify_code_tree (s : SourceLoop) : Option SourceLoop :=
  (units_by_repo s.code_units).foldlM (graphify_one_repo p b) s

/-- Keep a code source seen without rewriting it. -/
def touch_unit (s : SourceLoop) (unit : CodeUnit) : SourceLoop :=
  let (r, source_id) := touch_last_seen s.current unit.fetched
  { s with current := r, seen := s.seen ++ source_id.toList }

/-- Fetch every source, skip the unchanged ones and process the others; the code tree comes last.
`error` carries the loop at the point where the build is interrupted. -/
def process_sources (r : Registry) : Except SourceLoop SourceLoop :=
  let listing := b.listing.map p.fetch
  let start : SourceLoop := { committed := r, current := r }
  match b.fault with
  | some (.after_sources processed) =>
    .error ((listing.take processed).foldl (process_source p gate b) start)
  | fault =>
    let s := listing.foldl (process_source p gate b) start
    if s.any_code_changed then
      if fault == some .in_graphify then .error s
      else match graphify_code_tree p b s with
        | some s => .ok s.commit
        | none => .error s
    else .ok (s.code_units.foldl touch_unit s)

end Sources

/-- The registry after each pass of the finalising transaction. -/
structure Finalized where
  linked : Registry
  generated : Registry
  judged : Registry
  invalidated : Registry
  aliased : Registry
  mined : Registry

/-- The judge's pass, when a judge is injected. -/
def judge_links (p : Platform) (b : Build) (valid_from_seq : Nat) (r : Registry) : Option Registry :=
  match b.judge with
  | some judge => run_judge p b.kb_version valid_from_seq judge r
  | none => some r

/-- The passes over the whole graph, in order; `none` when one of them raises. -/
def finalize_graph (p : Platform) (b : Build) (r : Registry) (seen_source_ids changed_source_ids : List Uuid)
    (build_started_at : Timestamp) : Option Finalized := do
  let linked ← run_linker p r b.kb_version r.build_seq b.similarity
  let generated := run_candidate_generator p linked b.kb_version b.similarity
  let judged ← judge_links p b r.build_seq generated
  let invalidated ← run_invalidation_pass judged r.build_seq seen_source_ids changed_source_ids
    build_started_at
  let aliased := run_alias_miner p invalidated b.kb_version r.build_seq
  let mined := run_ledger_alias_miner p aliased b.kb_version r.build_seq b.retrieval_events
    b.window_start
  some { linked, generated, judged, invalidated, aliased, mined }

/-- Allocate the `build_seq` and commit the running row. -/
def start_run (p : Platform) (r : Registry) (kb_version : String) : Registry :=
  Registry.commit
    { r with
      build_seq := r.build_seq + 1
      uuids := r.uuids + 1
      runs := r.runs ++ [
        { build_id := r.fresh p, kb_version, build_seq := r.build_seq + 1, status := .running
          started_at := r.now }] }

/-- Write the run's final row and commit. -/
def finish_run (r : Registry) (build_id : Uuid) (status : RunStatus) (extractor_failures : Nat) :
    Registry :=
  Registry.commit
    { r with
      runs := update_where r.runs (fun run => run.build_id == build_id) fun run =>
        { run with status, extractor_failures } }

/-- What a build leaves behind: the registry, its source loop, and its finalising passes if it
completed. -/
structure Outcome where
  registry : Registry
  sources : SourceLoop
  finalized : Option Finalized

/-- Only the uncommitted tail of a failing build is lost. -/
def fail_run (build_id : Uuid) (s : SourceLoop) : Outcome :=
  { registry := finish_run s.rollback.current build_id .failed s.extractor_failures
    sources := s, finalized := none }

/-- One build. -/
def run (p : Platform) (gate : GenerationGate) (r : Registry) (b : Build) : Outcome :=
  let build_id := r.fresh p
  let started := start_run p r b.kb_version
  match process_sources p gate b started with
  | .error s => fail_run build_id s
  | .ok s =>
    if b.fault == some .in_finalize || !s.current.runs.any (·.build_id == build_id) then
      fail_run build_id s
    else match finalize_graph p b s.current s.seen s.changed r.now with
      | some passes =>
        { registry := finish_run passes.mined build_id .completed s.extractor_failures
          sources := s, finalized := some passes }
      | none => fail_run build_id s

def next (p : Platform) (gate : GenerationGate) (r : Registry) (b : Build) : Registry :=
  (run p gate r b).registry

/-- The registry after a sequence of builds. -/
def history (p : Platform) (gate : GenerationGate) (builds : List Build) : Registry :=
  builds.foldl (next p gate) Registry.empty

end AgenticKb

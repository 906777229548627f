import AgenticKb.Lib.Lasting
import AgenticKb.Lib.Memo
import AgenticKb.Application.BuildRunner

open AgenticKb.Lib

namespace AgenticKb.Durable

/-! The builds over the crash-durable output cache, which commits on a connection of its own: what the
build's session rolls back is not rolled back there. -/

/-- The columns of a document output besides its key. -/
structure DocExtractionOutput where
  input_hash : String
  prompt_version : String
  model_name : String
  model_params_hash : String
  output_schema_version : String
  output_json : List DocArtifactDraft
deriving DecidableEq, Repr

structure EmbeddingOutput where
  embedding_hash : String
  embedding : List Rat
deriving DecidableEq, Repr

/-- Both tables, and how many statements they were sent and calls the models. -/
structure Outputs where
  doc_extraction_output : Memo String DocExtractionOutput := {}
  /-- By text hash and embedding model. -/
  embedding_output : Memo (String × String) EmbeddingOutput := {}
  statements : Nat := 0
  extractions : Nat := 0
  embeddings : Nat := 0

/-- A build whose extractor and embedder answer call by call; they take the place of the build's own. -/
structure DurableBuild where
  build : Build
  /-- How the storage takes its n-th statement. -/
  durable_cache : Option (Nat → Taken) := some fun _ => .served
  extract : Nat → NormalizedContent → Option (List DocArtifactDraft)
  embed : Nat → String → Option (List Rat × String)

/-- A build without the cache goes on as if every statement were refused. -/
def DurableBuild.taken (s : DurableBuild) (n : Nat) : Taken := s.durable_cache.elim .refused (· n)

section Cache

variable (s : DurableBuild)

def get_doc_extraction (cache_key : String) : Lasting Outputs (Option (List DocArtifactDraft)) :=
  OptionT.mk fun d =>
    let (row, table) := d.doc_extraction_output.read (s.taken d.statements) cache_key
    (row.map (·.map (·.output_json)), { d with doc_extraction_output := table, statements := d.statements + 1 })

def put_doc_extraction (cache_key : String) (row : DocExtractionOutput) : Lasting Outputs Unit :=
  OptionT.mk fun d =>
    let (stored, table) := d.doc_extraction_output.store (s.taken d.statements) cache_key row
    (stored, { d with doc_extraction_output := table, statements := d.statements + 1 })

def get_embedding (text_hash embedding_model : String) : Lasting Outputs (Option (List Rat × String)) :=
  OptionT.mk fun d =>
    let (row, table) := d.embedding_output.read (s.taken d.statements) (text_hash, embedding_model)
    (row.map (·.map fun row => (row.embedding, row.embedding_hash)),
      { d with embedding_output := table, statements := d.statements + 1 })

def put_embedding (text_hash embedding_model : String) (result : List Rat × String) : Lasting Outputs Unit :=
  OptionT.mk fun d =>
    let (stored, table) := d.embedding_output.store (s.taken d.statements) (text_hash, embedding_model)
      { embedding := result.1, embedding_hash := result.2 }
    (stored, { d with embedding_output := table, statements := d.statements + 1 })

end Cache

section Runner

variable (p : Platform) (gate : GenerationGate) (s : DurableBuild)

/-- The row of one document's output. -/
def output_row (fetched : NormalizedContent) (drafts : List DocArtifactDraft) : DocExtractionOutput :=
  { input_hash := fetched.content_hash, prompt_version := DOC_EXTRACT_PROMPT_VERSION
    model_name := s.build.model_name, model_params_hash := s.build.model_params_hash
    output_schema_version := OUTPUT_SCHEMA_VERSION, output_json := drafts }

/-- The paid call. -/
def call_extractor (fetched : NormalizedContent) : Lasting Outputs (List DocArtifactDraft) :=
  OptionT.mk fun d =>
    let answer := s.extract d.extractions fetched
    (answer,
      { d with
        doc_extraction_output := d.doc_extraction_output.ask (generation_key p s.build fetched)
          (answer.map (output_row s fetched))
        extractions := d.extractions + 1 })

/-- The drafts of a document: from the durable cache, or paid for and stored there. -/
def extract_once (fetched : NormalizedContent) : Lasting Outputs (List DocArtifactDraft) :=
  Lasting.once (get_doc_extraction s (generation_key p s.build fetched)) (call_extractor p s fetched)
    fun result => put_doc_extraction s (generation_key p s.build fetched) (output_row s fetched result)

def docify_gated (r : Registry) (fetched : NormalizedContent) (source_id : Uuid) :
    Lasting Outputs (Registry × List Uuid) :=
  match gate.lookup r (generation_key p s.build fetched) with
  | some ids => pure (r, ids)
  | none => do
    let drafts ← extract_once p s fetched
    let (r, ids) := write_doc_artifacts p r (source_id, fetched.content_hash) s.build.kb_version r.build_seq
      fetched.source.acl_teams drafts
    let r ← Lasting.of (gate.record r (generation_key p s.build fetched) fetched.content_hash ids)
    pure (r, ids)

def call_embedder (text : String) : Lasting Outputs (List Rat × String) :=
  OptionT.mk fun d =>
    let answer := s.embed d.embeddings text
    (answer,
      { d with
        embedding_output := d.embedding_output.ask (p.content_hash text, s.build.embedding_model)
          (answer.map fun result => { embedding := result.1, embedding_hash := result.2 })
        embeddings := d.embeddings + 1 })

/-- The vector of a text: from the durable cache, or paid for and stored there. -/
def embed_once (text : String) : Lasting Outputs (List Rat × String) :=
  Lasting.once (get_embedding s (p.content_hash text) s.build.embedding_model) (call_embedder p s text)
    (put_embedding s (p.content_hash text) s.build.embedding_model)

def embed_gated (r : Registry) (artifact_id : Uuid) : Lasting Outputs Registry :=
  match (r.artifacts.find? fun a => a.artifact_id == artifact_id).bind (·.body_text) with
  | none => pure r
  | some body =>
    let text := p.body_string body
    match EmbeddingCacheGate.lookup r artifact_id (p.content_hash text) s.build.embedding_model with
    | some _ => pure r
    | none => do
      let (vector, embedding_hash) ← embed_once p s text
      pure (EmbeddingCacheGate.record r artifact_id (p.content_hash text) s.build.embedding_model
        embedding_hash vector)

def embed_and_index (r : Registry) (artifact_ids : List Uuid) : Lasting Outputs Registry := do
  let r ← artifact_ids.foldlM (embed_gated p s) r
  Lasting.of (if artifact_ids.isEmpty || s.build.upsert_documents artifact_ids then some r else none)

def process_commit_source (r : Registry) (fetched : NormalizedContent) : Lasting Outputs (Registry × Uuid) := do
  let (r, source_id) := upsert_source_item p r fetched
  let short := take_chars fetched.source.source_version 12
  let title := if short = "" then fetched.source.source_version else short
  let (r, ids) := write_commit_artifact p r (source_id, fetched.content_hash) s.build.kb_version r.build_seq
    title fetched.text (parse_changed_files p.unicode fetched.text) fetched.source.repo
  let r ← embed_and_index p s r ids
  pure (r, source_id)

def process_changed_source (r : Registry) (fetched : NormalizedContent) : Lasting Outputs (Registry × Uuid) :=
  if fetched.source.source_type == .git_metadata then process_commit_source p s r fetched
  else do
    let (r, source_id) := upsert_source_item p r fetched
    let (r, ids) ← docify_gated p gate s r fetched source_id
    let r ← embed_and_index p s r ids
    pure (r, source_id)

/-- One turn of the source loop. A failed source is rolled back in the registry alone. -/
def process_source (l : SourceLoop) (fetched : NormalizedContent) : StateM Outputs SourceLoop :=
  if is_code_file fetched then pure (AgenticKb.process_source p gate s.build l fetched)
  else if is_unchanged l.current fetched then pure (AgenticKb.process_source p gate s.build l fetched)
  else do
    match ← (process_changed_source p gate s l.current fetched).run with
    | some (r, changed_id) =>
      pure { l.commit with
        committed := r.commit, current := r.commit
        seen := l.seen ++ [changed_id], changed := l.changed ++ [changed_id] }
    | none => pure (fail_source l fetched)

def write_repo_artifacts (l : SourceLoop) (repo : String) (units : List CodeUnit)
    (drafts : List CodeArtifactDraft) : Lasting Outputs (Registry × CodeKeyMap × List Uuid) := do
  let (r, unit_source_ids, ids) := upsert_units p l.current units
  let w := (drafts_by_path drafts).foldl (write_path p s.build units unit_source_ids repo)
    { registry := r, code_key_map := l.code_key_map }
  let r ← embed_and_index p s w.registry w.artifact_ids
  pure (r, w.code_key_map, ids)

def graphify_one_repo (l : SourceLoop) (entry : String × List CodeUnit) : Lasting Outputs SourceLoop :=
  let (repo, units) := entry
  match s.build.graphify_tree (units.map fun unit => (unit.path, unit.fetched.text)) with
  | none => pure
      { l with
        extractor_failures := l.extractor_failures + 1
        failed := l.failed ++ units.map (·.fetched) }
  | some result => do
    let (r, code_key_map, ids) ← write_repo_artifacts p s l repo units result.artifacts
    let r ← Lasting.of (write_code_edges p r s.build.kb_version r.build_seq repo result.edges code_key_map)
    pure { l with current := r, code_key_map, seen := l.seen ++ ids, changed := l.changed ++ ids }

def graphify_code_tree (l : SourceLoop) : Lasting Outputs SourceLoop :=
  (units_by_repo l.code_units).foldlM (graphify_one_repo p s) l

def process_sources (r : Registry) : StateM Outputs (Except SourceLoop SourceLoop) := do
  let listing := s.build.listing.map p.fetch
  let start : SourceLoop := { committed := r, current := r }
  match s.build.fault with
  | some (.after_sources processed) =>
    let l ← (listing.take processed).foldlM (process_source p gate s) start
    pure (.error l)
  | fault =>
    let l ← listing.foldlM (process_source p gate s) start
    if l.any_code_changed then
      if fault == some .in_graphify then pure (.error l)
      else match ← (graphify_code_tree p s l).run with
        | some l => pure (.ok l.commit)
        | none => pure (.error l)
    else pure (.ok (l.code_units.foldl touch_unit l))

/-- What a build makes of its source loop; the models are not called any more. -/
def conclude (r : Registry) (sources : Except SourceLoop SourceLoop) : Outcome :=
  let build_id := r.fresh p
  match sources with
  | .error l => fail_run build_id l
  | .ok l =>
    if s.build.fault == some .in_finalize || !l.current.runs.any (·.build_id == build_id) then
      fail_run build_id l
    else match finalize_graph p s.build l.current l.seen l.changed r.now with
      | some passes =>
        { registry := finish_run passes.mined build_id .completed l.extractor_failures
          sources := l, finalized := some passes }
      | none => fail_run build_id l

def run (r : Registry) : StateM Outputs Outcome := do
  let sources ← process_sources p gate s (start_run p r s.build.kb_version)
  pure (conclude p s r sources)

def next (r : Registry) (s : DurableBuild) : StateM Outputs Registry := do
  let outcome ← run p gate s r
  pure outcome.registry

end Runner

/-- The registry after a sequence of builds, with the cache they share. -/
def history (p : Platform) (gate : GenerationGate) (builds : List DurableBuild) : StateM Outputs Registry :=
  builds.foldlM (next p gate) Registry.empty

end AgenticKb.Durable

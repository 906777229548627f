import AgenticKb.Application.Build

open AgenticKb.Lib

namespace AgenticKb

def PROJECTABLE_ARTIFACT_TYPES : List ArtifactType :=
  [.concept, .summary, .chunk, .source_backed_fact, .code_symbol, .commit, .alias_reference]

/-- One index document, derived from one artifact. Its key is the text of the artifact's id. -/
structure SearchDoc where
  artifact_id : Uuid
  artifact_type : ArtifactType
  source_type : SourceType
  source_uri : String
  title : Option String
  body_text : Option String
  kb_version : String
  knowledge_kind : Option KnowledgeKind
  authority_score : Option Rat
  freshness_score : Option Rat
  artifact_hash : Option String
  search_text : Option String
  embedding : Option (List Rat)
  embedding_model : Option String
deriving DecidableEq, Repr

/-- The search index: its documents by artifact id. -/
abbrev SearchIndex := Dict Uuid SearchDoc

/-- `fetch_index_state`: the documents' ids and hashes. -/
def index_state (index : SearchIndex) : Dict Uuid (Option String) :=
  index.map fun (doc_id, doc) => (doc_id, doc.artifact_hash)

/-- A live artifact of a live source, of a projectable type and with some text. -/
def projectable (entry : KnowledgeArtifact × SourceItem) : Bool :=
  let (a, s) := entry
  !s.is_deleted && PROJECTABLE_ARTIFACT_TYPES.contains a.artifact_type &&
    (a.body_text.isSome || a.search_text.isSome) && a.invalidated_at_seq.isNone

/-- The text an artifact's embedding is keyed on. -/
def embed_text (p : Platform) (a : KnowledgeArtifact) : Option String :=
  match a.body_text with
  | some body => some (p.body_string body)
  | none => a.search_text

/-- The cache row of one artifact's current text: by model, a row with a vector preferred. -/
def load_embedding (p : Platform) (r : Registry) (a : KnowledgeArtifact) : Option EmbeddingCache := do
  let text ← embed_text p a
  let rows := sorted (fun (x y : EmbeddingCache) => str_le x.embedding_model y.embedding_model)
    (r.embedding_cache.filter fun row =>
      row.artifact_id == a.artifact_id && row.text_hash == p.content_hash text)
  (rows.find? fun row => row.embedding.isSome).or rows.head?

def search_doc (p : Platform) (r : Registry) (entry : KnowledgeArtifact × SourceItem) : SearchDoc :=
  let (a, s) := entry
  let embedding_row := load_embedding p r a
  { artifact_id := a.artifact_id
    artifact_type := a.artifact_type
    source_type := s.source_type
    source_uri := s.source_uri
    title := a.title
    body_text := a.body_text.map p.body_string
    kb_version := a.kb_version
    knowledge_kind := a.knowledge_kind
    authority_score := a.authority_score
    freshness_score := a.freshness_score
    artifact_hash := a.artifact_hash
    search_text := a.search_text
    embedding := embedding_row.bind (·.embedding)
    embedding_model := embedding_row.map (·.embedding_model) }

/-- The documents of the given artifacts, or of every projectable one. -/
def load_search_docs (p : Platform) (r : Registry) (artifact_ids : Option (List Uuid)) :
    List SearchDoc :=
  ((r.joined.filter projectable).filter fun (a, _) =>
    artifact_ids.all fun ids => ids.contains a.artifact_id).map (search_doc p r)

/-- Id and hash of every projectable artifact. -/
def load_doc_hashes (r : Registry) : Dict Uuid (Option String) :=
  (r.joined.filter projectable).map fun (a, _) => (a.artifact_id, a.artifact_hash)

/-- `client.upsert_docs`, every document accepted. -/
def upsert_docs (index : SearchIndex) (docs : List SearchDoc) : SearchIndex :=
  docs.foldl (fun index doc => index.set doc.artifact_id doc) index

/-- Remove the documents whose artifact is gone from the registry. -/
def delete_orphaned (r : Registry) (index : SearchIndex) : SearchIndex :=
  index.filter fun (doc_id, _) => (load_doc_hashes r).any fun entry => entry.1 == doc_id

/-- The ids the index lacks, or holds at another hash. -/
def stale_doc_ids (r : Registry) (index : SearchIndex) : List Uuid :=
  ((load_doc_hashes r).filter fun (doc_id, artifact_hash) =>
    (index_state index).get? doc_id != some artifact_hash).map (·.1)

/-- Back-fill the projectable artifacts the index lacks or holds at a stale hash. -/
def reconcile_missing (p : Platform) (r : Registry) (index : SearchIndex) : SearchIndex :=
  upsert_docs index (load_search_docs p r (some (stale_doc_ids r index)))

/-- The index stage of a build. -/
def reconcile_index (p : Platform) (r : Registry) (index : SearchIndex) : SearchIndex :=
  reconcile_missing p r (delete_orphaned r index)

/-- The index and the registry name the same documents at the same hashes. -/
def validate_index_consistency (r : Registry) (index : SearchIndex) : Bool :=
  let expected := load_doc_hashes r
  let actual := index_state index
  let missing := expected.filter fun entry => (actual.get? entry.1).isNone
  let orphaned := actual.filter fun entry => (expected.get? entry.1).isNone
  let drifted := expected.filter fun entry =>
    (actual.get? entry.1).any fun artifact_hash => artifact_hash != entry.2
  missing.isEmpty && orphaned.isEmpty && drifted.isEmpty

end AgenticKb

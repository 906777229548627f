import AgenticKb.Domain.Drafts

open AgenticKb.Lib

namespace AgenticKb

/-- Where a build is interrupted: while the source loop is between two sources, while the code
graph is being written, or while the graph is being finalised. -/
inductive Fault where
  | after_sources (processed : Nat)
  | in_graphify
  | in_finalize
deriving DecidableEq, Repr

/-- One call of the build runner: its label, what its connectors list and the normalised text they
fetch for it, in order, and the answers of the collaborators injected into it. A collaborator that
answers `none`, and an index that does not accept a batch, raises. -/
structure Build where
  kb_version : String
  listing : List (SourceRef × String) := []
  model_name : String := ""
  model_params_hash : String := ""
  /-- The document extractor, over the crash-durable output cache beneath it. -/
  extract : NormalizedContent → Option (List DocArtifactDraft) := fun _ => some []
  graphify_tree : List (String × String) → Option GraphifyResult := fun _ => some {}
  embedding_model : String := ""
  /-- The embedder's vector and its hash. -/
  embed : String → Option (List Rat × String) := fun _ => some ([], "")
  upsert_documents : List Uuid → Bool := fun _ => true
  similarity : Option SimilarityProvider := none
  judge : Option RelationshipJudge := none
  retrieval_events : List RetrievalEvent := []
  /-- Start of the ledger miner's trailing window. -/
  window_start : Timestamp := 0
  fault : Option Fault := none

/-- `connector.fetch`: every connector stamps the digest of the text it normalised. -/
def Platform.fetch (p : Platform) (entry : SourceRef × String) : NormalizedContent :=
  { source := entry.1, text := entry.2, content_hash := p.content_hash entry.2 }

/-- `session.add_all(rows)` and a flush: every new row gets the next random id. -/
def Registry.add_artifacts (p : Platform) (r : Registry) (rows : List (Uuid → KnowledgeArtifact)) :
    Registry × List Uuid :=
  let ids := (List.range rows.length).map fun i => p.gen_random_uuid (r.uuids + i)
  ({ r with
      artifacts := r.artifacts ++ (rows.zip ids).map fun (row, id) => row id
      uuids := r.uuids + rows.length }, ids)

def Registry.add_edge (p : Platform) (r : Registry) (row : Uuid → KnowledgeEdge) : Registry :=
  { r with edges := r.edges ++ [row (r.fresh p)], uuids := r.uuids + 1 }

/-- The source row an artifact hangs on. -/
def Registry.source_of (r : Registry) (source_id : Uuid) : Option SourceItem :=
  r.source_items.find? fun s => s.source_id == source_id

/-- `knowledge_artifact JOIN source_item`. -/
def Registry.joined (r : Registry) : List (KnowledgeArtifact × SourceItem) :=
  r.artifacts.filterMap fun a => (r.source_of a.source_id).map fun s => (a, s)

end AgenticKb

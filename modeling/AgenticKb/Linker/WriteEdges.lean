import AgenticKb.Application.Build

open AgenticKb.Lib

namespace AgenticKb

def CODE_ARTIFACT_TYPES : List ArtifactType := [.code_file, .code_symbol, .endpoint]
def DOC_SOURCE_TYPES : List SourceType := [.azure_wiki, .github_doc]
def CARD_SOURCE_TYPES : List SourceType := [.ado_card]
def DOC_ARTIFACT_TYPES : List ArtifactType := [.chunk, .summary, .source_backed_fact]
def COMMIT_ARTIFACT_TYPE : ArtifactType := .commit
def COMMIT_SOURCE_TYPES : List SourceType := [.git_metadata]
def WORK_ITEM_SOURCE_TYPES : List SourceType := CARD_SOURCE_TYPES

/-- The logical link of a draft, on which drafts and linker rows are unique. -/
def LinkEdgeDraft.key (draft : LinkEdgeDraft) : Uuid × Uuid × EdgeType :=
  (draft.from_artifact_id, draft.to_artifact_id, draft.edge_type.edge_type)

def KnowledgeEdge.key (edge : KnowledgeEdge) : Uuid × Uuid × EdgeType :=
  (edge.from_artifact_id, edge.to_artifact_id, edge.edge_type)

/-- The `add` closure of the matchers: a link is emitted once, and never to itself. -/
def add_link (drafts : List LinkEdgeDraft) (draft : LinkEdgeDraft) : List LinkEdgeDraft :=
  if drafts.any (fun old => old.key == draft.key) ||
      draft.from_artifact_id == draft.to_artifact_id then drafts
  else drafts ++ [draft]

/-- Every artifact of a live source, retired ones included: the query filters on the source row's
`is_deleted` and not on the artifact's own interval. -/
def load_linkable_artifacts (p : Platform) (r : Registry) : List LinkableArtifact :=
  (r.joined.filter fun (_, s) => !s.is_deleted).map fun (a, s) =>
    { artifact_id := a.artifact_id
      artifact_type := a.artifact_type
      title := a.title
      body_text := a.body_text.map p.body_string
      source_type := s.source_type
      external_id := s.external_id
      path := s.path
      branch := s.branch }

/-- `INSERT … ON CONFLICT (from, to, edge_type) WHERE source = … DO UPDATE`: the row of a logical
link is updated in place, and inserted where there is none. Inserting fails when an endpoint is not
an artifact (the foreign keys). -/
def upsert_edge (p : Platform) (r : Registry) (source : EdgeSource) (key : Uuid × Uuid × EdgeType)
    (row : Uuid → KnowledgeEdge) (set : KnowledgeEdge → KnowledgeEdge) : Option Registry :=
  let same (e : KnowledgeEdge) := e.source == some source && e.key == key
  let is_artifact (id : Uuid) := r.artifacts.any fun a => a.artifact_id == id
  if r.edges.any same then some { r with edges := update_where r.edges same set }
  else if is_artifact key.1 && is_artifact key.2.1 then some (r.add_edge p row)
  else none

/-- Soft-invalidate the live edges that satisfy `stale`. -/
def retire_edges (r : Registry) (invalidated_at_seq : Nat) (stale : KnowledgeEdge → Bool) : Registry :=
  { r with
    edges := update_where r.edges (fun e => e.invalidated_at_seq.isNone && stale e) fun e =>
      { e with invalidated_at_seq := some invalidated_at_seq } }

/-- Insert or refresh the row of one draft. A refreshed row keeps its `valid_from_seq` and is live
again. -/
def write_link_edge (p : Platform) (kb_version : String) (valid_from_seq : Nat) (r : Registry)
    (draft : LinkEdgeDraft) : Option Registry :=
  upsert_edge p r .linker draft.key
    (fun edge_id =>
      { edge_id
        from_artifact_id := draft.from_artifact_id
        to_artifact_id := draft.to_artifact_id
        edge_type := draft.edge_type.edge_type
        confidence := some draft.confidence
        source := some .linker
        kb_version
        valid_from_seq
        trust_class := .EXTRACTED
        relation_schema_version := RELATION_SCHEMA_VERSION
        evidence := .bind draft.evidence })
    fun e =>
      { e with
        confidence := some draft.confidence
        kb_version
        relation_schema_version := RELATION_SCHEMA_VERSION
        evidence := .bind draft.evidence
        invalidated_at_seq := none }

/-- A live linker edge that is not among the drafts is stale, unless it is of a protected type and
carries no evidence pointer. -/
def stale_link (drafts : List LinkEdgeDraft) (protected_edge_types : List EdgeType)
    (e : KnowledgeEdge) : Bool :=
  e.source == some .linker && !(drafts.any fun draft => draft.key == e.key) &&
    !(protected_edge_types.contains e.edge_type && e.evidence.load.isNone)

/-- Reconcile the linker's edges with the computed set. -/
def write_link_edges (p : Platform) (r : Registry) (kb_version : String) (valid_from_seq : Nat)
    (drafts : List LinkEdgeDraft) (protected_edge_types : List EdgeType) : Option Registry := do
  let r ← drafts.foldlM (write_link_edge p kb_version valid_from_seq) r
  some (retire_edges r valid_from_seq (stale_link drafts protected_edge_types))

end AgenticKb

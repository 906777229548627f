import AgenticKb.Graphify.Keys

open AgenticKb.Lib

namespace AgenticKb

inductive DocArtifactType where
  | summary | concept | source_backed_fact
deriving DecidableEq, Repr

def DocArtifactType.artifact_type : DocArtifactType → ArtifactType
  | .summary => .summary
  | .concept => .concept
  | .source_backed_fact => .source_backed_fact

/-- One artifact of a document's extraction. The knowledge kind is a function of the type: the
draft's validator rejects any other. -/
structure DocArtifactDraft where
  artifact_type : DocArtifactType
  title : Option String
  body_text : String
  authority_score : Rat
  freshness_score : Rat
deriving DecidableEq, Repr

def DocArtifactDraft.knowledge_kind (draft : DocArtifactDraft) : KnowledgeKind :=
  match draft.artifact_type with
  | .source_backed_fact => .source_backed
  | _ => .interpreted

structure CodeArtifactDraft where
  key : String
  artifact_type : CodeArtifactType
  title : String
  body_text : Option String := none
  span_start : Option Nat := none
  span_end : Option Nat := none
  search_text : Option String := none
deriving DecidableEq, Repr

inductive CodeEdgeType where
  | imports | calls | tests | exposed_as | defined_in | uses | references | inherits
deriving DecidableEq, Repr

def CodeEdgeType.edge_type : CodeEdgeType → EdgeType
  | .imports => .imports
  | .calls => .calls
  | .tests => .tests
  | .exposed_as => .exposed_as
  | .defined_in => .defined_in
  | .uses => .uses
  | .references => .references
  | .inherits => .inherits

structure CodeEdgeDraft where
  from_key : String
  to_key : String
  edge_type : CodeEdgeType
  confidence : Rat
deriving DecidableEq, Repr

/-- Graphify's answer over a whole file tree. -/
structure GraphifyResult where
  artifacts : List CodeArtifactDraft := []
  edges : List CodeEdgeDraft := []
deriving DecidableEq, Repr

/-- The in-memory view of an artifact the linker works on. -/
structure LinkableArtifact where
  artifact_id : Uuid
  artifact_type : ArtifactType
  title : Option String
  body_text : Option String
  source_type : SourceType
  external_id : Option String := none
  path : Option String := none
  branch : Option String := none
deriving DecidableEq, Repr

inductive LinkerEdgeType where
  | documents | implements | requests | mentions
deriving DecidableEq, Repr

def LinkerEdgeType.edge_type : LinkerEdgeType → EdgeType
  | .documents => .documents
  | .implements => .implements
  | .requests => .requests
  | .mentions => .mentions

inductive LinkStrategy where
  | deterministic | semantic
deriving DecidableEq, Repr

structure LinkEdgeDraft where
  from_artifact_id : Uuid
  to_artifact_id : Uuid
  edge_type : LinkerEdgeType
  confidence : Rat
  strategy : LinkStrategy
  evidence : Option Evidence := none
deriving DecidableEq, Repr

structure ScoredArtifact where
  artifact_id : Uuid
  similarity : Rat
deriving DecidableEq, Repr

/-- The vector store behind the linker: the code symbols most similar to an artifact. -/
abbrev SimilarityProvider := Uuid → Nat → List ScoredArtifact

structure JudgeEndpoint where
  artifact_id : Uuid
  title : String
  evidence_text : String
  content_hash : String
deriving DecidableEq, Repr

structure JudgeCandidate where
  from_endpoint : JudgeEndpoint
  to_endpoint : JudgeEndpoint
deriving DecidableEq, Repr

/-- The model behind the relationship judge; `none` is a call that raises. -/
structure RelationshipJudge where
  model_name : String
  model_params_hash : String
  generate_relationship_judgment : JudgeCandidate → Option RelationshipJudgment

/-- One row of the query ledger, as far as the ledger miner reads it. -/
structure RetrievalEvent where
  tool_name : String
  status : String
  returned_artifacts : Nat
  query_text : Option String
  created_at : Timestamp
  /-- The UTC calendar day of `created_at`. -/
  created_date : Nat
deriving DecidableEq, Repr

def OUTPUT_SCHEMA_VERSION : String := "1.0.0"
def DOC_EXTRACT_PROMPT_VERSION : String := "1.0.0"
def JUDGE_PROMPT_VERSION : String := "1.0.0"
def RELATION_SCHEMA_VERSION : Nat := 1

end AgenticKb

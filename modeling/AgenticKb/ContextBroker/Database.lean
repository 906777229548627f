import Mathlib.Data.Prod.Lex
import Mathlib.Data.String.Basic
import AgenticKb.Application.Build
import AgenticKb.Domain.AclIntersection

open AgenticKb.Lib

namespace AgenticKb

def EdgeType.text : EdgeType → String
  | .imports => "imports"
  | .calls => "calls"
  | .inherits => "inherits"
  | .exposes => "exposes"
  | .tests => "tests"
  | .documents => "documents"
  | .implements => "implements"
  | .mentions => "mentions"
  | .exposed_as => "exposed_as"
  | .requests => "requests"
  | .defined_in => "defined_in"
  | .uses => "uses"
  | .references => "references"
  | .aliases => "aliases"
  | .other name => name

def EdgeSource.text : EdgeSource → String
  | .graphify => "graphify"
  | .linker => "linker"
  | .llm_judge => "llm_judge"
  | .alias_miner => "alias_miner"

def TrustClass.text : TrustClass → String
  | .EXTRACTED => "EXTRACTED"
  | .INFERRED_HIGH => "INFERRED_HIGH"
  | .INFERRED_LOW => "INFERRED_LOW"
  | .AMBIGUOUS => "AMBIGUOUS"
  | .REJECTED => "REJECTED"

namespace ContextBroker

def NO_RUN_SENTINEL : String := "-"

def MSG_NO_ACTIVE_VERSION : String := "no active kb_version; the knowledge base has not been built yet"

/-- Authenticated identity: session subject and team memberships. -/
structure Requester where
  subject : String
  teams : List String
deriving DecidableEq, Repr

inductive EventStatus where
  | approved | reused | denied | needs_human_approval | error
deriving DecidableEq, Repr

/-- One ledger row. -/
structure RetrievalEventInsert where
  run_id : String
  agent_name : String
  tool_name : String
  status : EventStatus
  kb_version : String
  context_pack_id : Option String := none
  query_text : Option String := none
  normalized_query : Option String := none
  retrieval_profile : Option String := none
  returned_artifact_ids : List Uuid := []
  reused_evidence_ids : List Uuid := []
  new_evidence_ids : List Uuid := []
  cache_hit : Bool := false
  semantic_reuse : Bool := false
  tokens_returned : Nat := 0
deriving DecidableEq, Repr

structure EntailmentKey where
  claim_hash : String
  evidence_ids_hash : String
  prompt_version : String
  model_version : String
deriving DecidableEq, Repr

/-- What the broker reads: the registry, the `centrality_score` column of its artifacts, the query
ledger and the entailment cache. -/
structure Database extends Registry where
  centrality_scores : Dict Uuid Rat := []
  retrieval_events : List RetrievalEventInsert := []
  entailment_cache : Dict EntailmentKey Bool := []
deriving DecidableEq, Repr

structure ActiveVersion where
  kb_version : String
  build_seq : Nat
deriving DecidableEq, Repr

def fetch_active_version (db : Database) : Option ActiveVersion :=
  (db.runs.find? fun run => run.status == .active).map fun run =>
    { kb_version := run.kb_version, build_seq := run.build_seq }

/-- An artifact as the broker hydrates it. -/
structure ArtifactRow where
  artifact_id : Uuid
  artifact_type : ArtifactType
  title : Option String
  body_text : Option String
  knowledge_kind : Option KnowledgeKind
  authority_score : Option Rat
  source_uri : String
  acl_teams : List String
  source_type : SourceType
  invalidated_at_seq : Option Nat
  source_is_deleted : Bool
  centrality_score : Option Rat
  search_text : Option String
deriving DecidableEq, Repr

def artifact_row (p : Platform) (db : Database) (entry : KnowledgeArtifact × SourceItem) : ArtifactRow :=
  let (a, s) := entry
  { artifact_id := a.artifact_id
    artifact_type := a.artifact_type
    title := a.title
    body_text := a.body_text.map p.body_string
    knowledge_kind := a.knowledge_kind
    authority_score := a.authority_score
    source_uri := s.source_uri
    acl_teams := a.acl_teams
    source_type := s.source_type
    invalidated_at_seq := a.invalidated_at_seq
    source_is_deleted := s.is_deleted
    centrality_score := db.centrality_scores.get? a.artifact_id
    search_text := a.search_text }

/-- The artifacts that are members of a build, beside their sources. -/
def member_artifacts (db : Database) (build_seq : Nat) : List (KnowledgeArtifact × SourceItem) :=
  db.joined.filter fun entry => decide (entry.1.MemberAt build_seq)

/-- The requested artifacts that are members of the build. -/
def fetch_artifacts (p : Platform) (db : Database) (artifact_ids : List Uuid) (build_seq : Nat) :
    List ArtifactRow :=
  ((member_artifacts db build_seq).map (artifact_row p db)).filter fun row => artifact_ids.contains row.artifact_id

/-- `team_acl_v1`: only the artifacts the requester may see. -/
def filter_artifacts (requester : Requester) (artifacts : List ArtifactRow) : List ArtifactRow :=
  artifacts.filter fun row => acl_admits requester.teams row.acl_teams

structure EdgeRow where
  from_artifact_id : Uuid
  to_artifact_id : Uuid
  edge_type : EdgeType
  confidence : Option Rat
  source : Option EdgeSource
  trust_class : TrustClass
deriving DecidableEq, Repr

def edge_row (e : KnowledgeEdge) : EdgeRow :=
  { from_artifact_id := e.from_artifact_id
    to_artifact_id := e.to_artifact_id
    edge_type := e.edge_type
    confidence := e.confidence
    source := e.source
    trust_class := e.trust_class }

/-- The edges that are members of a build. -/
def member_edges (db : Database) (build_seq : Nat) : List EdgeRow :=
  (db.edges.filter fun e => decide (e.MemberAt build_seq)).map edge_row

/-- `ORDER BY from_artifact_id, to_artifact_id, edge_type, trust_class`. -/
def EdgeRow.order (e : EdgeRow) : Uuid ×ₗ Uuid ×ₗ String ×ₗ String :=
  toLex (e.from_artifact_id, toLex (e.to_artifact_id, toLex (e.edge_type.text, e.trust_class.text)))

def EdgeRow.le (a b : EdgeRow) : Bool := decide (a.order ≤ b.order)

/-- The member edges at the given artifacts, of the given types; `none` stands for every type. -/
def fetch_edges_touching (db : Database) (artifact_ids : List Uuid) (build_seq : Nat)
    (edge_types : Option (List EdgeType)) : List EdgeRow :=
  sorted EdgeRow.le <| (member_edges db build_seq).filter fun e =>
    (artifact_ids.contains e.from_artifact_id || artifact_ids.contains e.to_artifact_id) &&
      edge_types.all fun types => types.contains e.edge_type

@[simp] theorem mem_fetch_artifacts {p : Platform} {db : Database} {artifact_ids : List Uuid} {build_seq : Nat}
    {row : ArtifactRow} : row ∈ fetch_artifacts p db artifact_ids build_seq ↔
      row ∈ (member_artifacts db build_seq).map (artifact_row p db) ∧ row.artifact_id ∈ artifact_ids := by
  rw [fetch_artifacts, List.mem_filter, List.contains_iff_mem]

@[simp] theorem mem_filter_artifacts {requester : Requester} {artifacts : List ArtifactRow} {row : ArtifactRow} :
    row ∈ filter_artifacts requester artifacts ↔
      row ∈ artifacts ∧ acl_admits requester.teams row.acl_teams = true := by
  rw [filter_artifacts, List.mem_filter]

@[simp] theorem mem_fetch_edges_touching {db : Database} {artifact_ids : List Uuid} {build_seq : Nat}
    {edge_types : Option (List EdgeType)} {e : EdgeRow} :
    e ∈ fetch_edges_touching db artifact_ids build_seq edge_types ↔
      e ∈ member_edges db build_seq ∧ (e.from_artifact_id ∈ artifact_ids ∨ e.to_artifact_id ∈ artifact_ids) ∧
        ∀ types ∈ edge_types, e.edge_type ∈ types := by
  cases edge_types with
  | none => simp [fetch_edges_touching]
  | some types => simp [fetch_edges_touching]

/-- What a filter keeps of the edges at a frontier comes in the order of the query. -/
theorem filter_fetch_edges_touching (db : Database) (artifact_ids : List Uuid) (build_seq : Nat)
    (edge_types : Option (List EdgeType)) (keep : EdgeRow → Bool) :
    (fetch_edges_touching db artifact_ids build_seq edge_types).filter keep =
      ((sorted EdgeRow.le (member_edges db build_seq)).filter keep).filter fun e =>
        (artifact_ids.contains e.from_artifact_id || artifact_ids.contains e.to_artifact_id) &&
          edge_types.all fun types => types.contains e.edge_type := by
  have htotal : ∀ a b : EdgeRow, a.le b = true ∨ b.le a = true := fun a b => by
    simpa [EdgeRow.le] using le_total a.order b.order
  have htrans : ∀ a b c : EdgeRow, a.le b = true → b.le c = true → a.le c = true := fun a b c hab hbc => by
    simp only [EdgeRow.le, decide_eq_true_eq] at hab hbc ⊢
    exact hab.trans hbc
  rw [fetch_edges_touching, ← filter_sorted htotal htrans, List.filter_comm]

end ContextBroker

end AgenticKb

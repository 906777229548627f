import AgenticKb.ContextBroker.Trust
import AgenticKb.ContextBroker.Verification

open AgenticKb.Lib

namespace AgenticKb.ContextBroker

structure SymbolFactRow where
  artifact_id : Uuid
  title : Option String
  path : Option String
  span_start : Option Nat
  span_end : Option Nat
  acl_teams : List String
deriving DecidableEq, Repr

structure EdgeFactRow where
  edge_id : Uuid
  trust_class : TrustClass
  from_artifact_id : Uuid
  acl_teams : List String
deriving DecidableEq, Repr

/-- The access list of an edge, from those of its ends. -/
def acl_intersection (from_acl to_acl : List String) : List String :=
  if from_acl.isEmpty then sorted str_le to_acl.dedup
  else if to_acl.isEmpty then sorted str_le from_acl.dedup
  else sorted str_le (from_acl.dedup.filter to_acl.contains)

section Queries

variable (db : Database) (build_seq : Nat)

/-- The symbols and tests of this title in this file. -/
def fetch_symbol_in_file_units (symbol file : String) : List SymbolFactRow :=
  (member_artifacts db build_seq).filterMap fun entry =>
    let (a, s) := entry
    if (a.artifact_type == .code_symbol || a.artifact_type == .test) && a.title == some symbol &&
        s.path == some file then
      some { artifact_id := a.artifact_id, title := a.title, path := s.path, span_start := a.span_start
             span_end := a.span_end, acl_teams := a.acl_teams }
    else none

/-- The members of a build under an id, with or without a source row. -/
def members_of_id (id : Uuid) : List KnowledgeArtifact :=
  db.artifacts.filter fun a => a.artifact_id == id && decide (a.MemberAt build_seq)

/-- An edge as a fact about its two ends. -/
def edge_fact (e : KnowledgeEdge) (from_acl to_acl : List String) : EdgeFactRow :=
  { edge_id := e.edge_id
    trust_class := e.trust_class
    from_artifact_id := e.from_artifact_id
    acl_teams := acl_intersection from_acl to_acl }

/-- The import edges from this file to an artifact of this title. -/
def fetch_file_imports_module_units (file module : String) : List EdgeFactRow :=
  (db.edges.filter fun e => e.edge_type.text == "imports" && decide (e.MemberAt build_seq)).flatMap fun e =>
    ((member_artifacts db build_seq).filter fun entry => entry.1.artifact_id == e.from_artifact_id &&
        entry.1.artifact_type == .code_file && entry.2.path == some file).flatMap fun ffile =>
      ((members_of_id db build_seq e.to_artifact_id).filter fun tmod => tmod.title == some module).map fun tmod =>
        edge_fact e ffile.1.acl_teams tmod.acl_teams

/-- The edges of this type between two artifacts, in either direction. -/
def fetch_edge_between_units (edge_type : String) (from_id to_id : Uuid) : List EdgeFactRow :=
  (db.edges.filter fun e => e.edge_type.text == edge_type && decide (e.MemberAt build_seq) &&
      (e.from_artifact_id == from_id && e.to_artifact_id == to_id ||
        e.from_artifact_id == to_id && e.to_artifact_id == from_id)).flatMap fun e =>
    (members_of_id db build_seq e.from_artifact_id).flatMap fun af =>
      (members_of_id db build_seq e.to_artifact_id).map fun at2 => edge_fact e af.acl_teams at2.acl_teams

end Queries

/-- The visible edge facts that may support a claim. -/
def claim_supporting_edge_units (rows : List EdgeFactRow) (requester : Requester) : List EdgeFactRow :=
  rows.filter fun row => acl_admits requester.teams row.acl_teams && is_claim_supporting row.trust_class

/-- Whether a fact of the ledger that the claim cites supports its assertion. -/
def adjudicate_typed_fact (parse_uuid : String → Option Uuid) (db : Database) (assertion : ClaimAssertion)
    (build_seq : Nat) (requester : Requester) (cited_ids : List Uuid) : Bool :=
  match assertion with
  | .symbol_in_file symbol file =>
    ((fetch_symbol_in_file_units db build_seq symbol file).filter fun row =>
      acl_admits requester.teams row.acl_teams).any fun row => cited_ids.contains row.artifact_id
  | .file_imports_module file module =>
    (claim_supporting_edge_units (fetch_file_imports_module_units db build_seq file module) requester).any fun row =>
      cited_ids.contains row.from_artifact_id
  | .edge_between edge_type from_id to_id =>
    match parse_uuid from_id, parse_uuid to_id with
    | some from_id, some to_id =>
      if cited_ids.contains from_id && cited_ids.contains to_id then
        !(claim_supporting_edge_units (fetch_edge_between_units db build_seq edge_type from_id to_id)
          requester).isEmpty
      else false
    | _, _ => false

end AgenticKb.ContextBroker

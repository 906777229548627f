import AgenticKb.ContextBroker.Trust
import AgenticKb.ContextBroker.Database

open AgenticKb.Lib

namespace AgenticKb.ContextBroker

/-- What the first verifier level reads of a cited artifact. -/
structure ProvenanceRow where
  artifact_id : Uuid
  source_is_deleted : Bool
  acl_teams : List String
  has_extracted_edge : Bool
  has_any_edge : Bool
deriving DecidableEq, Repr

def EdgeRow.incident (e : EdgeRow) (id : Uuid) : Bool := e.from_artifact_id == id || e.to_artifact_id == id

def provenance_row (db : Database) (build_seq : Nat) (entry : KnowledgeArtifact × SourceItem) : ProvenanceRow :=
  let (a, s) := entry
  { artifact_id := a.artifact_id
    source_is_deleted := s.is_deleted
    acl_teams := a.acl_teams
    has_extracted_edge := (member_edges db build_seq).any fun e =>
      is_claim_supporting e.trust_class && e.incident a.artifact_id
    has_any_edge := (member_edges db build_seq).any fun e => e.incident a.artifact_id }

/-- The provenance of the requested members of a build, by id. -/
def fetch_provenance (db : Database) (artifact_ids : List Uuid) (build_seq : Nat) : Dict Uuid ProvenanceRow :=
  ((member_artifacts db build_seq).filter fun entry => artifact_ids.contains entry.1.artifact_id).foldl
    (fun d entry => d.set entry.1.artifact_id (provenance_row db build_seq entry)) []

/-- The requested ids that some version has. -/
def fetch_existing_anywhere (db : Database) (artifact_ids : List Uuid) : List Uuid :=
  (db.artifacts.map (·.artifact_id)).filter artifact_ids.contains

/-- The body texts of the requested members of a build, where they have one. -/
def fetch_cited_body_texts (p : Platform) (db : Database) (artifact_ids : List Uuid) (build_seq : Nat) :
    Dict Uuid String :=
  (db.artifacts.filter fun a => artifact_ids.contains a.artifact_id && decide (a.MemberAt build_seq)).foldl
    (fun d a =>
      match a.body_text.map p.body_string with
      | some body => if body = "" then d else d.set a.artifact_id body
      | none => d) []

/-- Every id of the three evidence columns. -/
def RetrievalEventInsert.evidence (event : RetrievalEventInsert) : List Uuid :=
  event.returned_artifact_ids ++ event.reused_evidence_ids ++ event.new_evidence_ids

/-- Every artifact id the ledger says was returned to a subject under a version. -/
def fetch_subject_retrieved_ids (db : Database) (agent_name kb_version : String) : List Uuid :=
  (db.retrieval_events.filter fun event => event.agent_name == agent_name && event.kb_version == kb_version).flatMap
    (·.evidence)

end AgenticKb.ContextBroker

import AgenticKb.Application.Build

open AgenticKb.Lib

namespace AgenticKb

/-- The artifacts this build has written, by repo and symbolic key. -/
abbrev CodeKeyMap := Dict (String × String) Uuid

/-- Insert one row per code draft of one file; the symbolic keys come back with their ids, the last
draft of a key winning. -/
def write_code_artifacts (p : Platform) (r : Registry) (source : Uuid × String) (kb_version : String)
    (valid_from_seq : Nat) (acl_teams : List String) (drafts : List CodeArtifactDraft) :
    Registry × Dict String Uuid :=
  let (r, ids) := r.add_artifacts p <| drafts.map fun draft artifact_id =>
    { artifact_id
      artifact_type := draft.artifact_type.artifact_type
      source_id := source.1
      title := some draft.title
      body_text := draft.body_text.map .text
      content_hash := draft.body_text.map p.content_hash
      kb_version
      valid_from_seq
      acl_teams
      knowledge_kind := some .source_backed
      authority_score := some 1
      freshness_score := some 1
      span_start := draft.span_start
      span_end := draft.span_end
      search_text := draft.search_text
      created_at := r.now
      made_from := some source.2
      acl_at_write := acl_teams }
  (r, ((drafts.map (·.key)).zip ids).foldl (fun key_to_id (key, id) => key_to_id.set key id) [])

/-- Newest artifact first, as `ORDER BY created_at DESC, artifact_id DESC`. -/
def newest_first (a b : KnowledgeArtifact) : Bool :=
  b.created_at < a.created_at || (a.created_at == b.created_at && b.artifact_id ≤ a.artifact_id)

/-- The artifacts a key that this build did not write may stand for. Retired rows are among them:
the query asks for a live source, not for a live artifact. -/
def matching_artifacts (r : Registry) (repo : String) (key : ParsedKey) : List KnowledgeArtifact :=
  (r.joined.filter fun (a, s) =>
    a.artifact_type == key.artifact_type.artifact_type && s.path == some key.path &&
      s.repo == some repo && !s.is_deleted && (key.title.isNone || a.title == key.title)).map (·.1)

/-- The artifact a symbolic key names, if any; `none` outside when the key is malformed. -/
def resolve_key (r : Registry) (repo key : String) (key_to_id : CodeKeyMap) : Option (Option Uuid) :=
  match key_to_id.get? (repo, key) with
  | some id => some (some id)
  | none => do
    let parsed ← parse_key key
    some ((sorted newest_first (matching_artifacts r repo parsed)).head?.map (·.artifact_id))

/-- Insert one edge draft, or drop it when an endpoint does not resolve. -/
def write_code_edge (p : Platform) (kb_version : String) (valid_from_seq : Nat) (repo : String)
    (key_to_id : CodeKeyMap) (r : Registry) (draft : CodeEdgeDraft) : Option Registry := do
  let from_id ← resolve_key r repo draft.from_key key_to_id
  let to_id ← resolve_key r repo draft.to_key key_to_id
  match from_id, to_id with
  | some from_artifact_id, some to_artifact_id =>
    some <| r.add_edge p fun edge_id =>
      { edge_id
        from_artifact_id
        to_artifact_id
        edge_type := draft.edge_type.edge_type
        confidence := some draft.confidence
        source := some .graphify
        kb_version
        valid_from_seq
        trust_class := .EXTRACTED }
  | _, _ => some r

def write_code_edges (p : Platform) (r : Registry) (kb_version : String) (valid_from_seq : Nat)
    (repo : String) (drafts : List CodeEdgeDraft) (key_to_id : CodeKeyMap) : Option Registry :=
  drafts.foldlM (write_code_edge p kb_version valid_from_seq repo key_to_id) r

end AgenticKb

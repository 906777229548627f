import AgenticKb.Application.Build
import AgenticKb.Domain.AclIntersection
import AgenticKb.Connectors.GitMetadata

open AgenticKb.Lib

namespace AgenticKb

/-- Insert one row per draft; the ids come back in draft order. -/
def write_doc_artifacts (p : Platform) (r : Registry) (source : Uuid × String) (kb_version : String)
    (valid_from_seq : Nat) (acl_teams : List String) (drafts : List DocArtifactDraft) :
    Registry × List Uuid :=
  r.add_artifacts p <| drafts.map fun draft artifact_id =>
    { artifact_id
      artifact_type := draft.artifact_type.artifact_type
      source_id := source.1
      title := draft.title
      body_text := some (.text draft.body_text)
      content_hash := some (p.content_hash draft.body_text)
      kb_version
      valid_from_seq
      acl_teams
      knowledge_kind := some draft.knowledge_kind
      authority_score := some draft.authority_score
      freshness_score := some draft.freshness_score
      created_at := r.now
      made_from := some source.2
      acl_at_write := acl_teams }

/-- Access list of each changed file that has a live source row in the commit's own repo. -/
def file_acls (r : Registry) (changed_files : List String) (repo : Option String) :
    Dict String (List String) :=
  -- `SourceItem.repo == repo` is SQL: a NULL column equals nothing, and `repo = None` is IS NULL
  let rows := r.source_items.filterMap fun s =>
    match s.path with
    | some path => if changed_files.contains path && s.repo == repo && !s.is_deleted then
        some (path, s.acl_teams) else none
    | none => none
  let acl_rows_by_path := rows.foldl (fun (d : Dict String (List (List String))) (path, acl) =>
    d.append_to path acl) []
  acl_rows_by_path.map fun (path, acl_rows) => (path, merge_path_acls acl_rows)

/-- Insert the one deterministic artifact of a commit. Its access list is the intersection of the
access lists of the files it changed. -/
def write_commit_artifact (p : Platform) (r : Registry) (source : Uuid × String) (kb_version : String)
    (valid_from_seq : Nat) (title body_text : String) (changed_files : List String)
    (repo : Option String) : Registry × List Uuid :=
  let acl_teams := commit_acl_intersection changed_files (file_acls r changed_files repo)
  r.add_artifacts p [fun artifact_id =>
    { artifact_id
      artifact_type := .commit
      source_id := source.1
      title := some title
      body_text := some (.text body_text)
      content_hash := some (p.content_hash body_text)
      kb_version
      valid_from_seq
      knowledge_kind := some .source_backed
      authority_score := some 1
      freshness_score := some 1
      acl_teams
      created_at := r.now
      made_from := some source.2
      acl_at_write := acl_teams }]

end AgenticKb

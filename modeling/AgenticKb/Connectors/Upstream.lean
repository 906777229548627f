import AgenticKb.Registry

open AgenticKb.Lib

namespace AgenticKb

/-- A value of a work item's field, as JSON. -/
inductive FieldValue where
  | null
  | bool (value : Bool)
  | object (items : List (String × FieldValue))
  | list (values : List FieldValue)
  /-- A string or a number, as `str` spells it. -/
  | scalar (text : String)

mutual

/-- One field value on a single line. -/
def render_field_value : FieldValue → String
  | .null => ""
  | .bool value => if value then "true" else "false"
  | .object items =>
    let rendered := sorted (fun a b => str_le a.1 b.1) (render_items items)
    "\x7b" ++ join ", " (rendered.map fun (name, value) => name ++ "=" ++ value) ++ "\x7d"
  | .list values => "[" ++ join ", " (render_values values) ++ "]"
  | .scalar text => text

def render_items : List (String × FieldValue) → List (String × String)
  | [] => []
  | (name, value) :: items => (name, render_field_value value) :: render_items items

def render_values : List FieldValue → List String
  | [] => []
  | value :: values => render_field_value value :: render_values values

end

/-- The fields of one work item, by name. -/
abbrev Fields := Dict String FieldValue

/-- The fields that lead a snapshot. -/
def PRIORITY_FIELDS : List String :=
  ["System.Title", "System.State", "System.WorkItemType", "System.AreaPath"]

/-- A work item as a text: the leading fields, then the others by name. -/
def render_snapshot (work_item_id : String) (fields : Fields) : String :=
  let line (name : String) (value : FieldValue) := name ++ ": " ++ render_field_value value
  let leading := PRIORITY_FIELDS.filterMap fun name => (fields.get? name).map (line name)
  let others := (sorted (fun a b => str_le a.1 b.1) fields).filterMap fun (name, value) =>
    if PRIORITY_FIELDS.contains name then none else some (line name value)
  join "\n" (("WorkItem: " ++ work_item_id) :: leading ++ others) ++ "\n"

/-- What the hosts keep for good: the content of every file, page and card at each of its versions. A file is
addressed by its `github://` uri and read in a commit, a page in a commit of its wiki, a card in a revision. -/
structure Upstream where
  blob : (source_uri sha : String) → Option String
  page : (source_uri sha : String) → Option String
  card : (source_uri rev : String) → Option Fields

/-- The text of a source at a version; commits are not read from a host. -/
def Upstream.content (u : Upstream) (source_type : SourceType) (source_uri : String) (external_id : Option String)
    (version : String) : Option String :=
  match source_type with
  | .github_code | .github_doc => u.blob source_uri version
  | .azure_wiki => u.page source_uri version
  | .ado_card => (u.card source_uri version).map (render_snapshot (external_id.getD "0"))
  | .git_metadata => none

/-- One entry of a git tree. -/
structure TreeEntry where
  kind : String
  path : String
deriving DecidableEq, Repr

/-- The recursive listing of a commit's tree; the API caps it and says so. -/
structure GithubTree where
  truncated : Bool := false
  tree : List TreeEntry
deriving DecidableEq, Repr

/-- A wiki, by organization, project and name. -/
structure Wiki where
  organization : String
  project : String
  wiki : String
deriving DecidableEq, Repr

/-- A node of the page tree. -/
inductive WikiPage where
  | node (path : Option String) (id : Option String) (sub_pages : List WikiPage)

/-- A work item query: the project, and the area to stay under. -/
structure WorkItemQuery where
  organization : String
  project : String
  area_path : Option String
deriving DecidableEq, Repr

/-- The hosts at one instant: what each request would be answered then; `none` is an error response. -/
structure World where
  /-- The head commit of a branch. -/
  branch_sha : (repo branch : String) → Option String := fun _ _ => none
  tree : (repo sha : String) → Option GithubTree := fun _ _ => none
  repository_id : Wiki → Option String := fun _ => none
  default_branch : (repository_id : String) → Option (Option String) := fun _ => none
  /-- The object ids of the refs that match a filter. -/
  refs : (repository_id ref_filter : String) → Option (List String) := fun _ _ => none
  pages : Wiki → Option WikiPage := fun _ => none
  wiql : WorkItemQuery → Option (List Nat) := fun _ => none
  /-- The rows of a batch: the ids with their revision, which a malformed row lacks. -/
  work_items : WorkItemQuery → List Nat → Option (List (Nat × Option Nat)) := fun _ _ => none
  /-- The version in which a page, or a card, is served. -/
  head : (source_uri : String) → String := fun _ => ""

end AgenticKb

import AgenticKb.Connectors.Upstream

open AgenticKb.Lib

namespace AgenticKb

/-- What a backend lists. `partial_listing` is set where the source logs that the listing is known to be
incomplete. -/
structure Listing where
  refs : List SourceRef
  partial_listing : Bool := false
deriving DecidableEq, Repr

section Requests

variable (u : Upstream) (worlds : Nat → World)

/-- One request: `worlds n` is the instant at which the `n`-th request of the build is answered. -/
def ask {α : Type} (request : World → Option α) : StateT Nat Option α :=
  fun clock => (request (worlds clock)).map fun answer => (answer, clock + 1)

/-- An error response raises. -/
def raise_unless (ok : Bool) : StateT Nat Option Unit := if ok then pure () else failure

/-- A GitHub entry lists code or documents. -/
inductive GithubType where
  | github_code | github_doc
deriving DecidableEq, Repr

def GithubType.source_type : GithubType → SourceType
  | .github_code => .github_code
  | .github_doc => .github_doc

/-- A GitHub source entry reads one branch of one repo. -/
structure GithubSpec where
  type : GithubType
  repo : String
  branch : String := "main"
deriving DecidableEq, Repr

/-- `spec.repo.partition("/")`. -/
def partition_repo (repo : String) : String × String :=
  let owner := before_first "/" repo
  (owner, String.ofList ((repo.toList.drop owner.length).drop 1))

def github_uri (repo path : String) : String :=
  let (owner, name) := partition_repo repo
  "github://" ++ owner ++ "/" ++ name ++ "/" ++ path

/-- The blobs of the tree of the branch's head, all at that one commit. -/
def github_list_sources (spec : GithubSpec) : StateT Nat Option Listing := do
  let sha ← ask worlds (·.branch_sha spec.repo spec.branch)
  raise_unless (sha != "")
  let tree ← ask worlds (·.tree spec.repo sha)
  let blobs := tree.tree.filter (·.kind == "blob")
  let refs := blobs.map fun entry =>
    { source_type := spec.type.source_type
      source_uri := github_uri spec.repo entry.path
      source_version := sha
      repo := some spec.repo
      branch := some spec.branch
      path := some entry.path : SourceRef }
  return { refs := sorted (fun a b => str_le (a.path.getD "") (b.path.getD "")) refs
           partial_listing := tree.truncated }

/-- A file is read in the listed commit. -/
def github_fetch_text (source : SourceRef) : StateT Nat Option String :=
  ask worlds fun _ => u.blob source.source_uri source.source_version

def wiki_uri (wiki : Wiki) (path : String) : String :=
  "azuredevops://" ++ wiki.organization ++ "/" ++ wiki.project ++ "/_wiki/wikis/" ++ wiki.wiki ++ path

/-- The head commit of the wiki's repository. -/
def resolve_version (wiki : Wiki) : StateT Nat Option String := do
  let repository_id ← ask worlds (·.repository_id wiki)
  raise_unless (repository_id != "")
  let default_branch ← ask worlds (·.default_branch repository_id)
  let branch := default_branch.filter (· != "") |>.getD "refs/heads/main"
  let values ← ask worlds (·.refs repository_id (strip_leading branch "refs/"))
  let sha := values.headD ""
  raise_unless (sha != "")
  return sha

mutual

/-- The pages below a node, depth first; a node without a path, and the root, are structure only. -/
def walk (wiki : Wiki) (sha : String) : WikiPage → List SourceRef
  | .node path id sub_pages =>
    let refs := match path with
      | some path =>
        if path == "" || path == "/" then []
        else
          [{ source_type := .azure_wiki
             source_uri := wiki_uri wiki path
             source_version := sha
             path := some (strip_leading path "/")
             external_id := id : SourceRef }]
      | none => []
    refs ++ walk_all wiki sha sub_pages

def walk_all (wiki : Wiki) (sha : String) : List WikiPage → List SourceRef
  | [] => []
  | page :: pages => walk wiki sha page ++ walk_all wiki sha pages

end

/-- The pages of the wiki, one of each path, all stamped with the head that was resolved first. -/
def wiki_list_sources (wiki : Wiki) : StateT Nat Option Listing := do
  let sha ← resolve_version worlds wiki
  let tree ← ask worlds (·.pages wiki)
  let by_path := (walk wiki sha tree).foldl (fun (d : Dict (Option String) SourceRef) ref =>
    d.set ref.path ref) []
  return { refs := sorted (fun a b => str_le (a.path.getD "") (b.path.getD "")) (by_path.map (·.2)) }

/-- A page is read as it is served at the moment. -/
def wiki_fetch_text (source : SourceRef) : StateT Nat Option String :=
  ask worlds fun w => u.page source.source_uri (w.head source.source_uri)

def BATCH_SIZE : Nat := 200

/-- Past this many ids the query is cut off. -/
def WIQL_ID_CAP : Nat := 20000

def chunked (ids : List Nat) (size : Nat) : List (List Nat) :=
  (List.range ((ids.length + size - 1) / size)).map fun i => (ids.drop (i * size)).take size

/-- The ids of the query, and whether it has reached its cap. -/
def wiql_ids (query : WorkItemQuery) : StateT Nat Option (List Nat × Bool) := do
  let rows ← ask worlds (·.wiql query)
  let ids := rows.eraseDups
  return (ids, WIQL_ID_CAP ≤ ids.length)

/-- The revision of each id, batch by batch; a row without one is skipped. -/
def revisions (query : WorkItemQuery) (ids : List Nat) : StateT Nat Option (Dict Nat Nat) :=
  (chunked ids BATCH_SIZE).foldlM (fun revs chunk => do
    let items ← ask worlds (·.work_items query chunk)
    return items.foldl (fun (revs : Dict Nat Nat) (id, rev) =>
      match rev with
      | some rev => revs.set id rev
      | none => revs) revs) []

def work_item_uri (query : WorkItemQuery) (work_item_id : Nat) : String :=
  "azuredevops://" ++ query.organization ++ "/" ++ query.project ++ "/_workitems/edit/" ++ toString work_item_id

/-- The work items of the query at their current revision; an id without one is left out. -/
def work_item_list_sources (query : WorkItemQuery) : StateT Nat Option Listing := do
  let (ids, capped) ← wiql_ids worlds query
  if ids.isEmpty then return { refs := [] }
  let revs ← revisions worlds query ids
  let listed := sorted (fun a b => decide (a.1 ≤ b.1)) (ids.filterMap fun id => (revs.get? id).map fun rev => (id, rev))
  let refs := listed.map fun (id, rev) =>
    { source_type := .ado_card
      source_uri := work_item_uri query id
      source_version := toString rev
      external_id := some (toString id) : SourceRef }
  return { refs, partial_listing := capped || ids.any fun id => (revs.get? id).isNone }

/-- A card is read as it stands at the moment. -/
def work_item_fetch_text (source : SourceRef) : StateT Nat Option String :=
  ask worlds fun w => (u.card source.source_uri (w.head source.source_uri)).map
    (render_snapshot (source.external_id.getD "0"))

end Requests

end AgenticKb

import AgenticKb.Connectors.Backends
import AgenticKb.Lib.Wiql

open AgenticKb.Lib

namespace AgenticKb

/-! The query of a card source, and the service that answers it. -/

/-- Cards have no paths; selection is query-shaped, not glob-shaped. The schema refuses an empty area path. -/
structure AdoCardSourceSpec where
  organization : String
  project : String
  area_path : Option String := none
  work_item_types : List String := []
  states : List String := []
  tags : List String := []
deriving DecidableEq, Repr

/-- What the backend takes of a card source. -/
def AdoCardSourceSpec.query (spec : AdoCardSourceSpec) : WorkItemQuery where
  organization := spec.organization
  project := spec.project
  area_path := spec.area_path

/-- The query as a text, with the quotes of the area path doubled. -/
def wiql_query (query : WorkItemQuery) : String :=
  let clauses := ["[System.TeamProject] = @project"]
  let clauses :=
    match query.area_path.filter (· != "") with
    | some area_path =>
      let escaped := String.ofList (replace ['\''] ['\'', '\''] area_path.toList)
      clauses ++ ["[System.AreaPath] UNDER '" ++ escaped ++ "'"]
    | none => clauses
  "SELECT [System.Id] FROM WorkItems WHERE " ++ join " AND " clauses ++ " ORDER BY [System.Id]"

/-- The service's answers: the ids of a query, and the rows of a batch of ids with their revision. -/
structure WorkItemHost where
  wiql : (organization project query : String) → Option (List Nat)
  work_items : (organization : String) → List Nat → Option (List (Nat × Option Nat))

/-- The hosts, as far as cards go. -/
def WorkItemHost.world (host : WorkItemHost) : World where
  wiql query := host.wiql query.organization query.project (wiql_query query)
  work_items query ids := host.work_items query.organization ids

/-- A work item of a project. -/
structure WorkItem where
  id : Nat
  rev : Nat
  area_path : String
  work_item_type : String
  state : String
  tags : List String := []
deriving DecidableEq, Repr

/-- A field of a work item, as a query names it. -/
def WorkItem.field (project name : String) (item : WorkItem) : String :=
  match name with
  | "System.TeamProject" => project
  | "System.Id" => toString item.id
  | "System.Rev" => toString item.rev
  | "System.AreaPath" => item.area_path
  | "System.WorkItemType" => item.work_item_type
  | "System.State" => item.state
  | "System.Tags" => join "; " item.tags
  | _ => ""

/-- What a query of a project is about; `under` compares area paths as the service does. -/
def work_item_schema (project : String) (under : String → String → Bool) : Wiql.Schema WorkItem where
  field := WorkItem.field project
  variable_of name := if name = "project" then project else ""
  under := under

/-- The service answers a well-formed query on a project below the cap by its meaning, in any order, and returns for
every id asked the row with its revision. -/
structure AnswersByMeaning (host : WorkItemHost) (organization project : String) (under : String → String → Bool)
    (items : List WorkItem) : Prop where
  wiql : ∀ text query, Wiql.parse text = some query → items.length < WIQL_ID_CAP →
    ∃ ids, host.wiql organization project text = some ids ∧
      ∀ id, id ∈ ids ↔ ∃ item ∈ items, item.id = id ∧ query.means (work_item_schema project under) item = true
  work_items : ∀ ids, ids.length ≤ BATCH_SIZE → (∀ id ∈ ids, id ∈ items.map (·.id)) →
    ∃ rows, host.work_items organization ids = some rows ∧ ∀ id rev, (id, rev) ∈ rows ↔
      ∃ item ∈ items, item.id ∈ ids ∧ (id, rev) = (item.id, some item.rev)

end AgenticKb

import AgenticKb.ContextBroker.Cards
import AgenticKb.ContextBroker.Trust
import AgenticKb.Lib.Traversal

open AgenticKb.Lib

namespace AgenticKb.ContextBroker

structure GetNeighborsRequest where
  artifact_id : Uuid
  edge_types : List EdgeType := []
  depth : Nat := 1
  trust_floor : TrustFloor := .EXTRACTED
  include_inferred : Bool := false
deriving DecidableEq, Repr

structure GraphNeighbor where
  artifact_id : Uuid
  title : String
  artifact_type : ArtifactType
  edge_type : EdgeType
  outward : Bool
  confidence : Rat
  edge_source : String
  distance : Nat
  trust_class : TrustClass
  claim_supporting : Bool
deriving DecidableEq, Repr

structure GetNeighborsResponse where
  artifact_id : Uuid
  kb_version : String
  neighbors : List GraphNeighbor
deriving DecidableEq, Repr

/-- The hops from a frontier over the admitted edges, and all nodes seen. -/
def admitted_hops (db : Database) (build_seq : Nat) (edge_types : Option (List EdgeType))
    (trust_floor : TrustFloor) (include_inferred : Bool) (frontier visited : List Uuid) :
    List Uuid × List (Hop Uuid EdgeRow) :=
  scan EdgeRow.from_artifact_id EdgeRow.to_artifact_id frontier visited <|
    (fetch_edges_touching db frontier build_seq edge_types).filter fun e =>
      admits e.trust_class trust_floor include_inferred

/-- `allowed_by_id`: the row of an artifact among those of a hop that the requester may see. -/
def allowed_by_id (p : Platform) (db : Database) (build_seq : Nat) (requester : Requester)
    (neighbor_ids : List Uuid) (id : Uuid) : Option ArtifactRow :=
  (filter_artifacts requester (fetch_artifacts p db neighbor_ids build_seq)).reverse.find? fun row =>
    row.artifact_id == id

/-- One neighbor found. -/
structure Found where
  hop : Hop Uuid EdgeRow
  distance : Nat
  row : ArtifactRow
deriving DecidableEq, Repr

/-- The traversal: the frontier, the nodes seen, and what was found. -/
structure Walk where
  frontier : List Uuid
  visited : List Uuid
  found : List Found := []
deriving DecidableEq, Repr

section Walk

variable (deps : BrokerDeps) (db : Database) (build_seq : Nat) (requester : Requester) (request : GetNeighborsRequest)

/-- One distance of the walk. A walk that has nowhere to go or is full stays as it is, as the loop it
models stops there. An artifact the requester may not see is neither returned nor walked through. -/
def walk_hop (walk : Walk) (distance : Nat) : Walk :=
  let cap := deps.settings.max_graph_neighbors
  if walk.frontier.isEmpty || cap ≤ walk.found.length then walk
  else
    let edge_types := if request.edge_types.isEmpty then none else some request.edge_types
    let (visited, candidates) := admitted_hops db build_seq edge_types request.trust_floor request.include_inferred
      walk.frontier walk.visited
    let row := allowed_by_id deps.platform db build_seq requester (candidates.map (·.node))
    let found := (candidates.filterMap fun hop => (row hop.node).map fun row => { hop, distance, row : Found }).take
      (cap - walk.found.length)
    { frontier := found.map (·.hop.node), visited, found := walk.found ++ found }

/-- The root is hop 0: one the requester may not see starts no walk. -/
def start_walk : Walk :=
  { frontier :=
      if (filter_artifacts requester (fetch_artifacts deps.platform db [request.artifact_id] build_seq)).isEmpty then []
      else [request.artifact_id]
    visited := [request.artifact_id] }

def walk_graph : Walk :=
  (List.range' 1 request.depth).foldl (walk_hop deps db build_seq requester request)
    (start_walk deps db build_seq requester request)

end Walk

def graph_neighbor (deps : BrokerDeps) (found : Found) : GraphNeighbor :=
  { artifact_id := found.hop.node
    title := nonempty_or found.row.title (deps.platform.str_uuid found.hop.node)
    artifact_type := found.row.artifact_type
    edge_type := found.hop.edge.edge_type
    outward := found.hop.outward
    confidence := unit_score found.hop.edge.confidence
    edge_source := (found.hop.edge.source.map EdgeSource.text).getD "unknown"
    distance := found.distance
    trust_class := found.hop.edge.trust_class
    claim_supporting := is_claim_supporting found.hop.edge.trust_class }

/-- `graph.get_neighbors`; the error is the tool's. -/
def get_neighbors (deps : BrokerDeps) (db : Database) (requester : Requester) (request : GetNeighborsRequest) :
    Except String GetNeighborsResponse :=
  match fetch_active_version db with
  | none => .error MSG_NO_ACTIVE_VERSION
  | some active => .ok
      { artifact_id := request.artifact_id
        kb_version := active.kb_version
        neighbors := (walk_graph deps db active.build_seq requester request).found.map (graph_neighbor deps) }

end AgenticKb.ContextBroker

import AgenticKb.ContextBroker.Graph
import AgenticKb.ContextBroker.State

open AgenticKb.Lib

namespace AgenticKb.ContextBroker

def MAX_EXPAND_CARDS : Nat := 30

structure ExpandRequest where
  seed_artifact_ids : List Uuid
  trust_floor : TrustFloor := .EXTRACTED
  include_inferred : Bool := false
  budget_tokens : Nat
  context_pack_id : Option String := none
deriving DecidableEq, Repr

structure ExpandResponse where
  cards : List EvidenceCard
  tokens_used : Nat
  truncated : Bool
deriving DecidableEq, Repr

/-- The ends of the member edges: every node a walk can meet. -/
def edge_ends (db : Database) (build_seq : Nat) : List Uuid :=
  (member_edges db build_seq).flatMap fun e => [e.from_artifact_id, e.to_artifact_id]

/-- A level that meets anyone new leaves fewer to meet. -/
theorem unvisited_admitted_hops {db : Database} {build_seq : Nat} {edge_types : Option (List EdgeType)}
    {trust_floor : TrustFloor} {include_inferred : Bool} {frontier visited : List Uuid}
    (hne : (admitted_hops db build_seq edge_types trust_floor include_inferred frontier visited).2 ≠ []) :
    unvisited (edge_ends db build_seq)
        (admitted_hops db build_seq edge_types trust_floor include_inferred frontier visited).1 <
      unvisited (edge_ends db build_seq) visited := by
  obtain ⟨hop, hhop⟩ := List.exists_mem_of_ne_nil _ hne
  obtain ⟨hvisited, hhops⟩ := hops_of_scan EdgeRow.from_artifact_id EdgeRow.to_artifact_id frontier visited
    ((fetch_edges_touching db frontier build_seq edge_types).filter fun e =>
      admits e.trust_class trust_floor include_inferred)
  obtain ⟨hedge, hold, hnew, hends⟩ := hhops hop hhop
  refine unvisited_lt hvisited ?_ hold hnew
  have hmember := (mem_fetch_edges_touching.1 (List.mem_filter.1 hedge).1).1
  refine List.mem_flatMap.2 ⟨hop.edge, hmember, ?_⟩
  cases hends with
  | inl hout => simp [hout.2]
  | inr hin => simp [hin.2]

section Walk

variable (deps : BrokerDeps) (db : Database) (build_seq : Nat) (requester : Requester)

/-- One tier of the walk, level by level until nobody new is met; the rows found and all nodes seen. -/
def bfs_tier (trust_floor : TrustFloor) (include_inferred : Bool) (frontier visited : List Uuid) :
    List ArtifactRow × List Uuid :=
  if frontier.isEmpty then ([], visited)
  else
    let level := admitted_hops db build_seq none trust_floor include_inferred frontier visited
    if _ : level.2 = [] then ([], level.1)
    else
      let row := allowed_by_id deps.platform db build_seq requester (level.2.map (·.node))
      let reached := level.2.filterMap fun hop => (row hop.node).map fun row => (hop.node, row)
      let rest := bfs_tier trust_floor include_inferred (reached.map (·.1)) level.1
      (reached.map (·.2) ++ rest.1, rest.2)
termination_by unvisited (edge_ends db build_seq) visited
decreasing_by
  apply unvisited_admitted_hops
  assumption

/-- The seeds the requester may see, then the backbone around them, then the inferred tier around both. -/
def expand_rows (request : ExpandRequest) : List ArtifactRow :=
  let seed_rows := filter_artifacts requester
    (fetch_artifacts deps.platform db request.seed_artifact_ids build_seq)
  let seeds := (seed_rows.foldl (fun (d : Dict Uuid ArtifactRow) row => d.set row.artifact_id row) []).map (·.1)
  let extracted := bfs_tier deps db build_seq requester request.trust_floor false seeds request.seed_artifact_ids
  let inferred :=
    if request.include_inferred then
      (bfs_tier deps db build_seq requester request.trust_floor true (seeds ++ extracted.1.map (·.artifact_id))
        extracted.2).1
    else []
  seed_rows ++ extracted.1 ++ inferred

end Walk

/-- The cards of the closest rows, as many as the budget and the card cap take; the flag says that some
were left out. -/
def take_cards (deps : BrokerDeps) (effective_budget : Nat) :
    List ArtifactRow → List EvidenceCard → Nat → List EvidenceCard × Nat × Bool
  | [], cards, tokens_used => (cards, tokens_used, false)
  | row :: rows, cards, tokens_used =>
    if MAX_EXPAND_CARDS ≤ cards.length then (cards, tokens_used, true)
    else
      let card := build_card deps row none
      let cost := card_tokens deps card
      if effective_budget < tokens_used + cost then (cards, tokens_used, true)
      else take_cards deps effective_budget rows (cards ++ [card]) (tokens_used + cost)

/-- The budget of a call: what it asks for, within the server's cap and what its pack has left. -/
def effective_budget (deps : BrokerDeps) (request : ExpandRequest) (pack : Option PackState) : Nat :=
  let budget := min request.budget_tokens deps.settings.max_run_budget_tokens
  match pack with
  | some pack => min budget pack.run_remaining_tokens
  | none => budget

/-- The artifacts a pack holds already. -/
def pack_artifact_ids (pack : Option PackState) : List Uuid :=
  match pack with
  | some pack => pack.cards.map (·.2.artifact_id)
  | none => []

/-- The cards of an expansion, before it is charged. -/
def expand_cards (deps : BrokerDeps) (db : Database) (build_seq : Nat) (requester : Requester)
    (request : ExpandRequest) (budget : Nat) (held : List Uuid) : ExpandResponse :=
  let rows := (expand_rows deps db build_seq requester request).filter fun row => !held.contains row.artifact_id
  let (cards, tokens_used, truncated) := take_cards deps budget rows [] 0
  { cards, tokens_used, truncated }

def unknown_pack (context_pack_id : String) : String := "unknown context_pack_id: " ++ context_pack_id

/-- `context.expand` with nothing else going on; the error is the tool's. -/
def expand (deps : BrokerDeps) (db : Database) (packs : Dict String PackState) (requester : Requester)
    (request : ExpandRequest) : Except String ExpandResponse :=
  match fetch_active_version db with
  | none => .error MSG_NO_ACTIVE_VERSION
  | some active =>
    match request.context_pack_id with
    | none => .ok <| expand_cards deps db active.build_seq requester request (effective_budget deps request none)
        (pack_artifact_ids none)
    | some context_pack_id =>
      match packs.get? context_pack_id with
      | none => .error (unknown_pack context_pack_id)
      | some pack => .ok <| expand_cards deps db active.build_seq requester request
          (effective_budget deps request (some pack)) (pack_artifact_ids (some pack))

end AgenticKb.ContextBroker

import AgenticKb.ContextBroker.Cards

open AgenticKb.Lib

namespace AgenticKb.ContextBroker

/-- The identity of an object in process memory. -/
abbrev Ref := Nat

/-- What one agent has used of its allowance. -/
structure AgentUsage where
  requests : Nat := 0
  tokens : Nat := 0
deriving DecidableEq, Repr

def AgentUsage.add (usage : AgentUsage) (requests tokens : Nat) : AgentUsage :=
  { requests := usage.requests + requests, tokens := usage.tokens + tokens }

/-- An evidence pack. `agent_usage` is the meter object it was built with. -/
structure EvidencePackState where
  context_pack_id : String
  run_id : String
  budget_tokens : Nat
  used_run_tokens : Nat := 0
  agent_usage : Ref
deriving DecidableEq, Repr

/-- The packs in order of last use, and the meter of every run. -/
structure PackStore where
  packs : Dict String Ref := []
  run_usage : Dict String Ref := []
  max_packs : Nat := 256
deriving DecidableEq, Repr

/-- The broker's process memory: the store, every pack and meter object ever made, and the packs
that `create_pack` has built and whose ledger row is still being written. -/
structure Broker where
  store : PackStore := {}
  pack_states : List EvidencePackState := []
  usages : List (Dict String AgentUsage) := []
  in_flight : List Ref := []
deriving DecidableEq, Repr

namespace Broker

/-- `usage_for_run`: the meter registered for the run, or a new one. -/
def usage_for_run (s : Broker) (run_id : String) : Broker × Ref :=
  match s.store.run_usage.get? run_id with
  | some usage => (s, usage)
  | none =>
    ({ s with
        store := { s.store with run_usage := s.store.run_usage.set run_id s.usages.length }
        usages := s.usages ++ [[]] }, s.usages.length)

/-- The run of a pack object. -/
def run_of (s : Broker) (pack : Ref) : Option String := (s.pack_states[pack]?).map (·.run_id)

end Broker

/-- Drop a run's meter once none of `packs` is of that run. -/
def evict_run_usage_if_unreferenced (run_of : Ref → Option String) (packs run_usage : Dict String Ref)
    (run_id : String) : Dict String Ref :=
  if packs.any fun entry => run_of entry.2 == some run_id then run_usage else run_usage.del run_id

/-- The eviction loop of `create`: while the store is full, the least recently used pack goes. The
flag is false when a store of capacity zero runs out of packs to evict, which raises. -/
def evict (run_of : Ref → Option String) (max_packs : Nat) :
    Dict String Ref → Dict String Ref → Dict String Ref × Dict String Ref × Bool
  | [], run_usage => ([], run_usage, decide (0 < max_packs))
  | entry :: packs, run_usage =>
    if max_packs ≤ packs.length + 1 then
      evict run_of max_packs packs <|
        match run_of entry.2 with
        | some run_id => evict_run_usage_if_unreferenced run_of packs run_usage run_id
        | none => run_usage
    else (entry :: packs, run_usage, true)

namespace Broker

/-- `PackStore.create`. -/
def create (s : Broker) (pack : Ref) (context_pack_id : String) : Broker :=
  let (packs, run_usage, room) := evict s.run_of s.store.max_packs s.store.packs s.store.run_usage
  { s with
    store := { s.store with
      packs := if room then packs.set context_pack_id pack else packs
      run_usage } }

/-- `PackStore.get`: the pack moves to the back; an unknown id raises. -/
def get (s : Broker) (context_pack_id : String) : Broker × Option Ref :=
  match s.store.packs.get? context_pack_id with
  | some pack =>
    ({ s with store := { s.store with packs := s.store.packs.del context_pack_id ++ [(context_pack_id, pack)] } },
      some pack)
  | none => (s, none)

/-- What the meter of a pack reads for an agent. -/
def usage_for (s : Broker) (pack : EvidencePackState) (subject : String) : AgentUsage :=
  ((s.usages[pack.agent_usage]?).bind (·.get? subject)).getD {}

/-- `charge`, and the request that `request_more` counts beside it, through a pack a tool call holds. -/
def charge (s : Broker) (pack : Ref) (subject : String) (requests tokens : Nat) : Broker :=
  match s.pack_states[pack]? with
  | some state =>
    { s with
      pack_states := s.pack_states.set pack { state with used_run_tokens := state.used_run_tokens + tokens }
      usages := s.usages.modify state.agent_usage fun usage =>
        usage.set subject ((s.usage_for state subject).add requests tokens) }
  | none => s

/-- `create_pack` up to its ledger row: the pack is built around the run's meter. -/
def begin_create (s : Broker) (context_pack_id run_id : String) (budget_tokens used_tokens : Nat) : Broker :=
  let (s, agent_usage) := s.usage_for_run run_id
  { s with
    pack_states := s.pack_states ++
      [{ context_pack_id, run_id, budget_tokens, used_run_tokens := used_tokens, agent_usage }]
    in_flight := s.in_flight ++ [s.pack_states.length] }

/-- The ledger row is written and the pack is stored. -/
def end_create (s : Broker) (pack : Ref) : Broker :=
  match s.pack_states[pack]? with
  | some state =>
    if s.in_flight.contains pack then
      { s.create pack state.context_pack_id with in_flight := s.in_flight.erase pack }
    else s
  | none => s

/-- The ledger row cannot be written: the pack is never stored. -/
def fail_create (s : Broker) (pack : Ref) : Broker := { s with in_flight := s.in_flight.erase pack }

end Broker

/-- One step of the tool calls that share the store. A call awaits its ledger row between building
its pack and storing it, so other calls run in between. -/
inductive Operation where
  | begin_create (context_pack_id run_id : String) (budget_tokens used_tokens : Nat)
  | end_create (pack : Ref)
  | fail_create (pack : Ref)
  | get (context_pack_id : String)
  | charge (pack : Ref) (subject : String) (requests tokens : Nat)
deriving DecidableEq, Repr

def Broker.step (s : Broker) : Operation → Broker
  | .begin_create context_pack_id run_id budget_tokens used_tokens =>
    s.begin_create context_pack_id run_id budget_tokens used_tokens
  | .end_create pack => s.end_create pack
  | .fail_create pack => s.fail_create pack
  | .get context_pack_id => (s.get context_pack_id).1
  | .charge pack subject requests tokens => s.charge pack subject requests tokens

/-- A broker that has just started. -/
def Broker.start (max_packs : Nat) : Broker := { store := { max_packs } }

structure PastRetrieval where
  normalized_query : String
  evidence_ids : List String
deriving DecidableEq, Repr

/-- An evidence pack with what it serves: the version it is pinned to, its cards and its query history. -/
structure PackState extends EvidencePackState where
  kb_version : String
  build_seq : Nat
  retrieval_profile : String
  cards : Dict String EvidenceCard := []
  history : List PastRetrieval := []
deriving DecidableEq, Repr

/-- `max(budget_tokens - used_run_tokens, 0)`. -/
def PackState.run_remaining_tokens (pack : PackState) : Nat := pack.budget_tokens - pack.used_run_tokens

end AgenticKb.ContextBroker

import AgenticKb.ContextBroker.Expand
import AgenticKb.ContextBroker.Retrieval
import AgenticKb.ContextBroker.Verify

open AgenticKb.Lib

namespace AgenticKb.ContextBroker

structure CreatePackRequest where
  run_id : String
  task : String
  approved_context_plan : String
  retrieval_profile : String
  budget_tokens : Nat
  intent : Option Intent := none
deriving DecidableEq, Repr

structure RequestMoreRequest where
  context_pack_id : String
  question : String
  already_checked_evidence_ids : List String := []
  max_tokens : Nat
deriving DecidableEq, Repr

structure OpenEvidenceRequest where
  context_pack_id : String
  evidence_id : String
  max_tokens : Nat
deriving DecidableEq, Repr

/-- What the pack tools are asked. A new pack comes with the id that `new_pack_id` draws for it. -/
inductive Request where
  | create_pack (request : CreatePackRequest) (context_pack_id : String)
  | read_pack (context_pack_id : String)
  | request_more (request : RequestMoreRequest)
  | open_evidence (request : OpenEvidenceRequest)
  | expand (request : ExpandRequest)
deriving DecidableEq, Repr

def Request.tool_name : Request → String
  | .create_pack .. => "context.create_pack"
  | .read_pack _ => "context.read_pack"
  | .request_more _ => "context.request_more"
  | .open_evidence _ => "context.open_evidence"
  | .expand _ => "context.expand"

/-- The pack a request names. -/
def Request.context_pack_id : Request → Option String
  | .create_pack .. => none
  | .read_pack context_pack_id => some context_pack_id
  | .request_more request => some request.context_pack_id
  | .open_evidence request => some request.context_pack_id
  | .expand request => request.context_pack_id

/-- How a call ends: with what its tool returns, with a tool error or with any other exception. -/
inductive Reply where
  | create_pack (pack : Ref) (cards : List EvidenceCard) (budget_used_tokens : Nat)
  | read_pack (pack : Ref) (cards : List EvidenceCard)
  | request_more (pack : Ref) (status : EventStatus) (reused_evidence_ids : List String)
      (new_evidence_cards : List EvidenceCard) (tokens_returned : Nat) (denial_reason : Option String)
  | open_evidence (pack : Ref) (card : EvidenceCard) (untrusted_content : String) (tokens_used : Nat)
      (injection_signals : List InjectionSignal)
  | expand (pack : Option Ref) (response : ExpandResponse)
  | found (artifact_ids : List Uuid)
  | error (message : String)
  | raised
deriving DecidableEq, Repr

/-- The pack whose remaining budget a response tells. -/
def Reply.pack : Reply → Option Ref
  | .read_pack pack _ | .request_more pack .. | .open_evidence pack .. => some pack
  | _ => none

/-- What a call takes from the meters of a pack's run. -/
structure Charge where
  pack : Ref
  requests : Nat
  tokens : Nat
deriving DecidableEq, Repr

def Reply.charge : Reply → Option Charge
  | .request_more pack .approved _ _ tokens _ => some { pack, requests := 1, tokens }
  | .open_evidence pack _ _ tokens _ => some { pack, requests := 0, tokens }
  | .expand (some pack) response => some { pack, requests := 0, tokens := response.tokens_used }
  | _ => none

/-- A point-in-time copy of every field a charged operation might touch. -/
structure PackSnapshot where
  used_run_tokens : Nat
  agent_requests : Nat
  agent_tokens : Nat
  cards : Dict String EvidenceCard
  history_entries : List PastRetrieval
deriving DecidableEq, Repr

/-- A ledger row on its way: the pack whose lock is held meanwhile, what a failure gives back, the new
pack that waits for the row, and what the call returns after it. -/
structure Writing where
  event : RetrievalEventInsert
  lock : Option Ref := none
  refund : Option PackSnapshot := none
  stores : Option Ref := none
  reply : Reply
deriving DecidableEq, Repr

/-- An expansion after its first read. -/
structure Expansion where
  request : ExpandRequest
  active : ActiveVersion
  pack : Option Ref
  effective_budget : Nat
  pack_artifact_ids : List Uuid
deriving DecidableEq, Repr

/-- The walk of an expansion: its seeds, the tier it is in, and the rows found so far. -/
structure TierWalk where
  seed_rows : List ArtifactRow
  seeds : List Uuid
  include_inferred : Bool := false
  frontier : List Uuid
  visited : List Uuid
  rows : List ArtifactRow := []
deriving DecidableEq, Repr

/-- What a call awaits, with its local variables. -/
inductive Stage where
  | create_active (request : CreatePackRequest) (context_pack_id : String)
  | create_search (request : CreatePackRequest) (context_pack_id : String) (active : ActiveVersion)
  | create_hydrate (request : CreatePackRequest) (context_pack_id : String) (active : ActiveVersion)
      (hits : List SearchHit)
  | create_symbols (request : CreatePackRequest) (context_pack_id : String) (active : ActiveVersion)
      (hits : List SearchHit) (artifacts : List ArtifactRow)
  | read_hydrate (pack : Ref) (all_cards : List EvidenceCard)
  | more_lock (request : RequestMoreRequest) (pack : Ref)
  | more_exact (request : RequestMoreRequest) (pack : Ref) (reused : List String)
  | more_semantic (request : RequestMoreRequest) (pack : Ref) (reused : List String)
  | more_search (request : RequestMoreRequest) (pack : Ref)
  | more_hydrate (request : RequestMoreRequest) (pack : Ref) (hits : List SearchHit)
  | open_hydrate (request : OpenEvidenceRequest) (pack : Ref) (card : EvidenceCard)
  | open_lock (request : OpenEvidenceRequest) (pack : Ref) (card : EvidenceCard) (body : String)
  | expand_active (request : ExpandRequest)
  | expand_seeds (expansion : Expansion)
  | expand_edges (expansion : Expansion) (walk : TierWalk)
  | expand_nodes (expansion : Expansion) (walk : TierWalk) (neighbor_ids : List Uuid)
  | expand_lock (expansion : Expansion) (pack : Ref) (response : ExpandResponse)
  | writing (row : Writing)
  | done
deriving DecidableEq, Repr

/-- The pack whose lock a call holds while it awaits this. -/
def Stage.holds : Stage → Option Ref
  | .more_exact _ pack _ | .more_semantic _ pack _ | .more_search _ pack | .more_hydrate _ pack _ => some pack
  | .writing row => row.lock
  | _ => none

structure Call where
  requester : Requester
  tool_name : String
  stage : Stage
deriving DecidableEq, Repr

/-- What a call has charged while its row is on the way. -/
def Call.pending (call : Call) : Option Charge :=
  match call.stage with
  | .writing row => row.reply.charge
  | _ => none

/-- A call that has returned. -/
structure Answer where
  subject : String
  kb_version : String
  reply : Reply
  budget_remaining_tokens : Option Nat := none
deriving DecidableEq, Repr

/-- What a call does between two awaits: it runs on to the next one; it makes a new pack; it takes a
charge, then writes its row; or it raises. -/
inductive Action where
  | await (stage : Stage)
  | make (pack : PackState) (row : Writing)
  | charge (charge : Charge) (cards : List EvidenceCard) (recorded : Option PastRetrieval) (row : Writing)
  | raise
deriving DecidableEq, Repr

/-- `QueryHistory.find_exact`. -/
def find_exact (history : List PastRetrieval) (normalized_query : String) : Option PastRetrieval :=
  history.find? fun entry => entry.normalized_query == normalized_query

/-- `QueryHistory.find_semantic`: the first of the most similar entries at the threshold or above. -/
def find_semantic (deps : BrokerDeps) (history : List PastRetrieval) (normalized_query : String) :
    Option PastRetrieval :=
  (history.foldl (fun (best : Option PastRetrieval × Rat) entry =>
    let score := deps.similarity normalized_query entry.normalized_query
    if deps.settings.semantic_reuse_threshold ≤ score ∧ best.2 < score then (some entry, score) else best)
    (none, 0)).1

/-- The cards in rank order as long as they fit: the best new ones, up to the first that does not. -/
def select_cards (deps : BrokerDeps) (max_tokens : Nat) (excluded : List String) :
    List EvidenceCard → Nat → List EvidenceCard × Nat
  | [], tokens => ([], tokens)
  | card :: cards, tokens =>
    if excluded.contains card.evidence_id then select_cards deps max_tokens excluded cards tokens
    else if max_tokens < tokens + card_tokens deps card then ([], tokens)
    else
      let (rest, total) := select_cards deps max_tokens excluded cards (tokens + card_tokens deps card)
      (card :: rest, total)

/-- The loop of `_trim_to_budget`, over the cards from the last on: one goes as long as they cost too much. -/
def trim_tail (deps : BrokerDeps) (budget_tokens : Nat) : List EvidenceCard → Nat → List EvidenceCard × Nat
  | [], used => ([], used)
  | victim :: kept, used =>
    if budget_tokens < used then trim_tail deps budget_tokens kept (used - card_tokens deps victim)
    else (victim :: kept, used)

/-- `_trim_to_budget`: the lowest ranked cards go until the rest fits. -/
def trim_to_budget (deps : BrokerDeps) (budget_tokens : Nat) (cards : List EvidenceCard) : List EvidenceCard × Nat :=
  let (kept, used) := trim_tail deps budget_tokens cards.reverse (cards.map (card_tokens deps)).sum
  (kept.reverse, used)

/-- A selection costs no more than what it may, if it starts so. -/
theorem select_cards_le {deps : BrokerDeps} {max_tokens : Nat} {excluded : List String} {cards : List EvidenceCard}
    {tokens : Nat} (h : tokens ≤ max_tokens) : (select_cards deps max_tokens excluded cards tokens).2 ≤ max_tokens := by
  induction cards generalizing tokens with
  | nil => exact h
  | cons card cards ih =>
    unfold select_cards
    split
    · exact ih h
    · split
      · exact h
      · apply ih
        omega

private theorem trim_tail_le {deps : BrokerDeps} {budget_tokens : Nat} {cards : List EvidenceCard} {used : Nat}
    (hused : used = (cards.map (card_tokens deps)).sum) : (trim_tail deps budget_tokens cards used).2 ≤ budget_tokens := by
  induction cards generalizing used with
  | nil =>
    rw [hused]
    exact Nat.zero_le _
  | cons victim kept ih =>
    unfold trim_tail
    split
    · apply ih
      simp only [List.map_cons, List.sum_cons] at hused
      omega
    · omega

/-- A pack is never born over its budget. -/
theorem trim_to_budget_le (deps : BrokerDeps) (budget_tokens : Nat) (cards : List EvidenceCard) :
    (trim_to_budget deps budget_tokens cards).2 ≤ budget_tokens := by
  apply trim_tail_le
  rw [List.map_reverse, List.sum_reverse]

end AgenticKb.ContextBroker

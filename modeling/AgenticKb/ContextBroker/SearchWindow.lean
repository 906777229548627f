import AgenticKb.ContextBroker.Tools
import AgenticKb.Lib.Tasks

open AgenticKb.Lib

namespace AgenticKb.ContextBroker

structure KbSearchBudget where
  calls : Nat
  tokens : Nat
deriving DecidableEq, Repr

structure KbSearchResponse where
  results : List KbSearchHit
  budget_remaining : KbSearchBudget
  notice : Option String
deriving DecidableEq, Repr

def BUDGET_SPENT_NOTICE : String :=
  "KB budget spent — work with what you have, or read the specific files you still need."

def remaining (allowance : AgentAllowance) (usage : AgentUsage) : KbSearchBudget :=
  { calls := allowance.max_requests - usage.requests, tokens := allowance.max_tokens - usage.tokens }

/-- The `details` column of a row of the tool. -/
structure KbSearchDetails where
  session : String
  calls_used : Nat
  tokens_used : Nat
  max_requests : Nat
  max_tokens : Nat
deriving DecidableEq, Repr

structure KbSearchRow extends RetrievalEventInsert where
  details : Option KbSearchDetails := none
deriving DecidableEq, Repr

/-- The window an approved row is charged to. -/
def KbSearchRow.charged_to (row : KbSearchRow) : Option (String × String) :=
  if row.status = .approved then row.details.map fun details => (details.session, row.agent_name) else none

/-- One budget window, with the key it was made for. -/
structure KbSearchWindow where
  key : String × String
  usage : AgentUsage := {}
deriving DecidableEq, Repr

/-- What a search awaits, with its local variables. A charged one knows what the window read before. -/
inductive SearchStage where
  | active
  | lock (window : Ref) (active : ActiveVersion)
  | search (window : Ref) (active : ActiveVersion) (before : AgentUsage)
  | hydrate (window : Ref) (active : ActiveVersion) (before : AgentUsage) (hits : List SearchHit)
  | approved (window : Ref) (before : AgentUsage) (row : KbSearchRow) (response : KbSearchResponse)
  | refunded (window : Ref)
  | denied (window : Ref) (row : KbSearchRow)
  | denied_span (window : Ref) (response : KbSearchResponse)
  | span (response : KbSearchResponse)
  | unserved (row : KbSearchRow)
  | raised (row : KbSearchRow)
  | done (response : Option KbSearchResponse)
deriving DecidableEq, Repr

/-- The window whose lock a search holds while it awaits this. -/
@[simp] def SearchStage.holds : SearchStage → Option Ref
  | .search window .. | .hydrate window .. | .approved window .. | .refunded window | .denied window _
  | .denied_span window _ => some window
  | _ => none

structure SearchCall where
  requester : Requester
  query : String
  session_key : String
  stage : SearchStage := .active
deriving DecidableEq, Repr

def SearchCall.key (call : SearchCall) : String × String := (call.session_key, call.requester.subject)

/-- The server as far as `kb_search` is concerned: what it reads, the budget windows in order of last use,
every window ever made, the calls and the ledger, and, for the record, the windows that were evicted. -/
structure SearchServer where
  db : Database
  store : Dict (String × String) Ref := []
  windows : List KbSearchWindow := []
  calls : List SearchCall := []
  rows : List KbSearchRow := []
  evicted : List (String × String) := []
deriving DecidableEq, Repr

namespace SearchServer

/-- A call is inside the window's `async with window.lock`. -/
def locked (s : SearchServer) (window : Ref) : Bool := s.calls.any fun call => call.stage.holds == some window

def set_stage (s : SearchServer) (i : Nat) (stage : SearchStage) : SearchServer :=
  { s with calls := s.calls.modify i fun call => { call with stage } }

def set_usage (s : SearchServer) (window : Ref) (usage : AgentUsage) : SearchServer :=
  { s with windows := s.windows.modify window fun state => { state with usage } }

def insert_row (s : SearchServer) (row : KbSearchRow) : SearchServer := { s with rows := s.rows ++ [row] }

/-- The row may be in the ledger although its write has failed. -/
def insert_landed (s : SearchServer) (landed : Bool) (row : KbSearchRow) : SearchServer :=
  if landed then s.insert_row row else s

/-- `KbSearchBudgetStore.window_for`. -/
def window_for (s : SearchServer) (key : String × String) : SearchServer × Ref :=
  match s.store.get? key with
  | some window => ({ s with store := s.store.del key ++ [(key, window)] }, window)
  | none =>
    let excess := s.store.length + 1 - MAX_WINDOWS
    ({ s with
        store := s.store.drop excess ++ [(key, s.windows.length)]
        windows := s.windows ++ [{ key }]
        evicted := s.evicted ++ (s.store.take excess).map (·.1) }, s.windows.length)

end SearchServer

section Steps

variable (deps : ServerDeps) (s : SearchServer) (i : Nat) (call : SearchCall)

/-- The row that `write_ledger` writes. -/
def search_row (active : ActiveVersion) (usage : AgentUsage) (status : EventStatus) (returned : List ArtifactRow)
    (tokens : Nat) : KbSearchRow :=
  let allowance := deps.budget_policy.allowance_for call.requester.subject
  { approved_event call.requester "kb_search" NO_RUN_SENTINEL active.kb_version (some call.query)
      (returned.map (·.artifact_id)) with
    status
    normalized_query := some (normalize_query deps.platform.unicode call.query)
    tokens_returned := tokens
    details := some
      { session := call.session_key
        calls_used := usage.requests
        tokens_used := usage.tokens
        max_requests := allowance.max_requests
        max_tokens := allowance.max_tokens } }

/-- The row of a call that could not be served. -/
def search_error (query_text : Option String) : KbSearchRow :=
  { error_event call.requester "kb_search" query_text with }

def search_unserved : SearchStage := .unserved (search_error call (some call.query))

/-- The uniform wrapper's row. -/
def search_raised : SearchStage := .raised (search_error call none)

def search_active : SearchServer :=
  match fetch_active_version s.db with
  | none => s.set_stage i (search_unserved call)
  | some active =>
    let (s, window) := s.window_for call.key
    s.set_stage i (.lock window active)

/-- Under the lock: the call is denied, or one request is charged before the retrieval. -/
def search_locked (window : Ref) (active : ActiveVersion) (usage : AgentUsage) : SearchServer :=
  if kb_budget_open (deps.budget_policy.allowance_for call.requester.subject) usage then
    (s.set_usage window (usage.add 1 0)).set_stage i (.search window active usage)
  else s.set_stage i (.denied window (search_row deps call active usage .denied [] 0))

/-- The answer's tokens are charged; its row is still to be written. -/
def search_answer (window : Ref) (active : ActiveVersion) (before : AgentUsage) (artifacts : List ArtifactRow)
    (usage : AgentUsage) : SearchServer :=
  let hits := artifacts.map (kb_search_hit deps.platform.unicode)
  let tokens := (hits.map fun hit => estimate_tokens (deps.hit_dump_json hit)).sum
  let charged := usage.add 0 tokens
  let allowance := deps.budget_policy.allowance_for call.requester.subject
  (s.set_usage window charged).set_stage i <|
    .approved window before (search_row deps call active charged .approved artifacts tokens)
      { results := hits
        budget_remaining := remaining allowance charged
        notice := if kb_budget_open allowance charged then none else some BUDGET_SPENT_NOTICE }

def search_search (window : Ref) (active : ActiveVersion) (before usage : AgentUsage) : SearchServer :=
  let hits := search_hits deps.toBrokerDeps s.db call.query active.build_seq
  if hits.isEmpty then search_answer deps s i call window active before [] usage
  else s.set_stage i (.hydrate window active before hits)

def search_hydrate (window : Ref) (active : ActiveVersion) (before : AgentUsage) (hits : List SearchHit)
    (usage : AgentUsage) : SearchServer :=
  let artifacts := fetch_artifacts deps.platform s.db ((hit_scores hits).map (·.1)) active.build_seq
  search_answer deps s i call window active before
    (ranked_rows deps.toBrokerDeps call.requester none hits artifacts []) usage

def search_denied (window : Ref) (usage : AgentUsage) : SearchStage :=
  .denied_span window
    { results := []
      budget_remaining := remaining (deps.budget_policy.allowance_for call.requester.subject) usage
      notice := some BUDGET_SPENT_NOTICE }

/-- What a call reads of its window. -/
def with_usage (window : Ref) (run : AgentUsage → SearchServer) : SearchServer :=
  (s.windows[window]?).elim s fun state => run state.usage

/-- `kb_search` from one await to the next; a call may find the lock taken. -/
def resume_search : SearchServer :=
  match call.stage with
  | .active => search_active s i call
  | .lock window active =>
    if s.locked window then s else with_usage s window (search_locked deps s i call window active)
  | .search window active before => with_usage s window (search_search deps s i call window active before)
  | .hydrate window active before hits => with_usage s window (search_hydrate deps s i call window active before hits)
  | .approved _ _ row response => (s.insert_row row).set_stage i (.span response)
  | .refunded _ => s.set_stage i (search_raised call)
  | .denied window row => with_usage (s.insert_row row) window fun usage =>
      (s.insert_row row).set_stage i (search_denied deps call window usage)
  | .denied_span _ response | .span response => s.set_stage i (.done (some response))
  | .unserved row | .raised row => (s.insert_row row).set_stage i (.done none)
  | .done _ => s

/-- The await raises. A charged call gives back its charge, a span is dropped, and the wrapper writes a row
for what no tool has ledgered. -/
def fail_search (landed : Bool) : SearchServer :=
  match call.stage with
  | .active | .lock .. => s.set_stage i (search_raised call)
  | .search window _ before | .hydrate window _ before _ => (s.set_usage window before).set_stage i (.refunded window)
  | .approved window before row _ =>
    ((s.insert_landed landed row).set_usage window before).set_stage i (.refunded window)
  | .denied _ row | .unserved row => (s.insert_landed landed row).set_stage i (search_raised call)
  | .raised row => (s.insert_landed landed row).set_stage i (.done none)
  | .refunded _ | .denied_span .. | .span _ | .done _ => resume_search deps s i call

/-- The call is cancelled: `asyncio.CancelledError` is no `Exception`, so nothing is given back. -/
def cancel_search (landed : Bool) : SearchServer :=
  match call.stage with
  | .approved _ _ row _ | .denied _ row | .unserved row | .raised row =>
    (s.insert_landed landed row).set_stage i (.done none)
  | .done _ => s
  | _ => s.set_stage i (.done none)

end Steps

/-- What happens next: a search comes in, or its await completes, raises or is cancelled; or the builder
writes. -/
inductive SearchEvent where
  | begin (requester : Requester) (query session_key : String)
  | resume (call : Nat)
  | fail (call : Nat) (landed : Bool)
  | cancel (call : Nat) (landed : Bool)
  | publish (registry : Registry) (centrality_scores : Dict Uuid Rat)

def SearchServer.step (deps : ServerDeps) (s : SearchServer) : SearchEvent → SearchServer
  | .begin requester query session_key => { s with calls := s.calls ++ [{ requester, query, session_key }] }
  | .resume i => (s.calls[i]?).elim s (resume_search deps s i)
  | .fail i landed => (s.calls[i]?).elim s fun call => fail_search deps s i call landed
  | .cancel i landed => (s.calls[i]?).elim s fun call => cancel_search s i call landed
  | .publish registry centrality_scores => { s with db := { s.db with toRegistry := registry, centrality_scores } }

/-- A server that has just started. -/
def SearchServer.start (db : Database) : SearchServer := { db }

end AgenticKb.ContextBroker

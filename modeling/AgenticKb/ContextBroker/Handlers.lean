import AgenticKb.ContextBroker.ChangeContext
import AgenticKb.ContextBroker.PlatformTrust
import AgenticKb.ContextBroker.SearchWindow
import AgenticKb.ContextBroker.Server
import AgenticKb.Lib.Recording

open AgenticKb.Lib

namespace AgenticKb.ContextBroker

def SCOPE_CONTEXT_READ : String := "context.read"
def SCOPE_GRAPH_READ : String := "graph.read"
def SCOPE_LEDGER_READ : String := "ledger.read"
def SCOPE_VERIFY : String := "context.verify"

def TOOL_REQUIRED_SCOPES : Dict String String :=
  [("context.create_pack", SCOPE_CONTEXT_READ), ("context.read_pack", SCOPE_CONTEXT_READ),
    ("context.request_more", SCOPE_CONTEXT_READ), ("context.open_evidence", SCOPE_CONTEXT_READ),
    ("context.create_change_pack", SCOPE_CONTEXT_READ), ("kb_search", SCOPE_CONTEXT_READ),
    ("get_task_context", SCOPE_CONTEXT_READ), ("get_review_draft", SCOPE_CONTEXT_READ),
    ("graph.get_neighbors", SCOPE_GRAPH_READ), ("ledger.list_retrievals", SCOPE_LEDGER_READ),
    ("context.verify_answer", SCOPE_VERIFY), ("context.platform_trust", SCOPE_VERIFY)]

def ClientIdentity.has_scope (client : ClientIdentity) (scope : String) : Bool := client.scopes.contains scope

/-- A client that is not registered is never gated. -/
def client_may_call (client : ClientIdentity) (tool_name : String) : Bool :=
  !client.registered || (TOOL_REQUIRED_SCOPES.get? tool_name).all client.has_scope

inductive ToolResponse where
  | reply (reply : Reply)
  | kb_search (response : KbSearchResponse)
  | neighbors (neighbors : List GraphNeighbor)
  | task_context (response : TaskContextResponse)
  | receipt (receipt : VerificationReceipt)
  | change_context (response : ChangeContextResponse)
  | retrievals (events : List RetrievalEventInsert)
  | review_draft (draft : Option String)
  | platform_trust (decision : PlatformTrustDecision)

/-- An exception a tool raises itself: a `LedgeredToolError`, whose row is written, or any other. -/
inductive ToolFailure where
  | ledgered (message : String)
  | unexpected (message : String)
deriving DecidableEq, Repr

/-- How work fails: with an `Exception`, or with the `BaseException` of a cancelled call. -/
inductive Fault where
  | exception
  | cancelled
deriving DecidableEq, Repr

abbrev Handler := Program RetrievalEventInsert ToolFailure

/-- What the session of a call says of its caller, and the version that is served. -/
structure CallContext where
  client : Option ClientIdentity
  requester : Option Requester
  session_key : Option String
  active : Option ActiveVersion

/-- A request that reaches its handler. -/
inductive ToolCall where
  | pack (request : Request)
  | plain (tool : Tool)
  | platform_trust (receipt : Option VerificationReceipt)

def ToolCall.tool_name : ToolCall → String
  | .pack request => request.tool_name
  | .plain tool => tool.tool_name
  | .platform_trust _ => "context.platform_trust"

section Handlers

open Program

variable (deps : ServerDeps) (ctx : CallContext)

/-- `_client`: the client may call the tool, or the call raises. -/
def authorize (tool_name : String) : Handler ClientIdentity := do
  let found ← reads ctx.client
  let client ← or_raise (.unexpected "no authenticated session") found
  if client_may_call client tool_name then return client
  else .raise (.unexpected ("client not authorized for " ++ tool_name ++ " (missing scope)"))

def current_requester : Handler Requester := do
  let found ← reads ctx.requester
  or_raise (.unexpected "no authenticated session") found

def current_session_key : Handler String := do
  let found ← reads ctx.session_key
  or_raise (.unexpected "no active MCP session") found

/-- `write_error_event`, and the error that says so. -/
def fail_ledgered {α : Type} (event : RetrievalEventInsert) (message : String) : Handler α := do
  write event
  .raise (.ledgered message)

/-- A tool that serves only an active version. -/
def serving (requester : Requester) (tool_name query_text : String) (serve : ActiveVersion → Handler ToolResponse) :
    Handler ToolResponse := do
  let active ← reads ctx.active
  match active with
  | none => fail_ledgered (error_event requester tool_name (some query_text)) MSG_NO_ACTIVE_VERSION
  | some active => serve active

/-- The same where the error is raised inside a session that is closed on its way out. -/
def serving_in_session (requester : Requester) (tool_name query_text : String)
    (serve : ActiveVersion → Handler ToolResponse) : Handler ToolResponse := do
  let active ← reads ctx.active
  match active with
  | none =>
    write (error_event requester tool_name (some query_text))
    await Unit
    .raise (.ledgered MSG_NO_ACTIVE_VERSION)
  | some active => serve active

/-- A row of a pack's tool is written; then the call raises what it has ledgered, or a new pack is stored, the
access is logged and the response is built. -/
def conclude (row : Writing) : Handler ToolResponse := do
  write row.event
  match row.reply with
  | .error message => .raise (.ledgered message)
  | reply =>
    await Unit
    reads (.reply reply)

/-- A pack's tool from one await to the next, at every one of which the server may be in any state. A call that
is still waiting when `fuel` runs out gets no answer. -/
def follow (call : Call) : Nat → Action → Handler ToolResponse
  | _, .await (.writing row) => conclude row
  | _, .make _ row => do
    await Unit
    conclude row
  | _, .charge _ _ _ row => do
    await Unit
    conclude row
  | _, .raise => .raise (.unexpected "badly formed hexadecimal UUID string")
  | 0, .await _ => .work Empty Empty.elim
  | fuel + 1, .await stage => do
    let s ← await Server
    follow call fuel ((resume_call deps s { call with stage }).getD (.await stage))

/-- The five tools on packs. -/
def pack_handler (fuel : Nat) (requester : Requester) (request : Request) : Handler ToolResponse := do
  let s ← await Server
  let call : Call := { requester, tool_name := request.tool_name, stage := .done }
  follow deps call fuel (begin_call s requester request)

def kb_search_handler (requester : Requester) (query session_key : String) : Handler ToolResponse :=
  serving ctx requester "kb_search" query fun active => do
    let call : SearchCall := { requester, query, session_key }
    let allowance := deps.budget_policy.allowance_for requester.subject
    let before ← await AgentUsage
    if kb_budget_open allowance before then
      let artifacts ← await (List ArtifactRow)
      let hits := artifacts.map (kb_search_hit deps.platform.unicode)
      let tokens := (hits.map fun hit => estimate_tokens (deps.hit_dump_json hit)).sum
      let usage := before.add 1 tokens
      write (search_row deps call active usage .approved artifacts tokens).toRetrievalEventInsert
      await Unit
      reads <| .kb_search
        { results := hits
          budget_remaining := remaining allowance usage
          notice := if kb_budget_open allowance usage then none else some BUDGET_SPENT_NOTICE }
    else
      write (search_row deps call active before .denied [] 0).toRetrievalEventInsert
      await Unit
      reads <| .kb_search
        { results := [], budget_remaining := remaining allowance before, notice := some BUDGET_SPENT_NOTICE }

def get_neighbors_handler (requester : Requester) (request : GetNeighborsRequest) : Handler ToolResponse :=
  let root := deps.platform.str_uuid request.artifact_id
  serving_in_session ctx requester "graph.get_neighbors" root fun active => do
    let neighbors ← await (List GraphNeighbor)
    write <| approved_event requester "graph.get_neighbors" NO_RUN_SENTINEL active.kb_version (some root)
      (neighbors.map (·.artifact_id))
    await Unit
    reads (.neighbors neighbors)

def get_task_context_handler (requester : Requester) (task_description : String) : Handler ToolResponse :=
  serving ctx requester "get_task_context" task_description fun active => do
    let response ← await TaskContextResponse
    write
      { approved_event requester "get_task_context" NO_RUN_SENTINEL active.kb_version (some task_description)
          response.evidence_ids with tokens_returned := response.tokens }
    await Unit
    reads (.task_context response)

/-- The receipt is built and signed after the row. -/
def verify_answer_handler (requester : Requester) (request : VerifyAnswerRequest) (client : ClientIdentity) :
    Handler ToolResponse :=
  serving_in_session ctx requester VERIFY_TOOL_NAME request.answer_id fun active => do
    let graph_version := request.graph_version.getD active.kb_version
    let claim_results ← await (List ClaimReceipt)
    write
      { approved_event requester VERIFY_TOOL_NAME NO_RUN_SENTINEL graph_version (some request.answer_id) [] with
        normalized_query := some (normalized_answer_hash deps.toVerifierDeps request) }
    let receipt ← await VerificationReceipt
    reads (.receipt { receipt with graph_version, claim_results, client_id := some client.client_id })

/-- Before the first build the call returns without a row. -/
def create_change_pack_handler (requester : Requester) (run_id : Option String) (query : String) :
    Handler ToolResponse := do
  let active ← reads ctx.active
  match active with
  | none => reads (.change_context { notes := [MSG_NO_ACTIVE_VERSION] })
  | some active =>
    let response ← await ChangeContextResponse
    write <| approved_event requester "context.create_change_pack" (nonempty_or run_id NO_RUN_SENTINEL)
      active.kb_version (some query) []
    reads (.change_context response)

def list_retrievals_handler (requester : Requester) (run_id : String) : Handler ToolResponse := do
  let events ← await (List RetrievalEventInsert)
  let active ← reads ctx.active
  write <| approved_event requester "ledger.list_retrievals" run_id (active.elim NO_RUN_SENTINEL (·.kb_version)) none []
  await Unit
  reads (.retrievals events)

def get_review_draft_handler (requester : Requester) (repo pr_number : String) : Handler ToolResponse := do
  let draft ← await (Option String)
  write <| approved_event requester "get_review_draft" NO_RUN_SENTINEL NO_RUN_SENTINEL
    (some (repo ++ "#" ++ pr_number)) []
  reads (.review_draft draft)

def tool_handler (client : ClientIdentity) (requester : Requester) : Tool → Handler ToolResponse
  | .get_neighbors request => get_neighbors_handler deps ctx requester request
  | .kb_search query _ => do
    let session_key ← current_session_key ctx
    kb_search_handler deps ctx requester query session_key
  | .get_task_context task_description => get_task_context_handler ctx requester task_description
  | .verify_answer request _ => verify_answer_handler deps ctx requester request client
  | .create_change_pack run_id query => create_change_pack_handler ctx requester run_id query
  | .list_retrievals run_id => list_retrievals_handler ctx requester run_id
  | .get_review_draft repo pr_number => get_review_draft_handler requester repo pr_number

/-- `make_handlers`: the handler of every tool, before it is wrapped. -/
def handler (fuel : Nat) (call : ToolCall) : Handler ToolResponse := do
  let client ← authorize ctx call.tool_name
  match call with
  | .pack request =>
    let requester ← current_requester ctx
    pack_handler deps fuel requester request
  | .plain tool =>
    let requester ← current_requester ctx
    tool_handler deps ctx client requester tool
  | .platform_trust receipt =>
    reads (.platform_trust (evaluate_platform_trust deps.hmac_sha256 deps.signing_key client receipt))

end Handlers

/-- The row of `_write_unexpected_error`. -/
def unexpected_event (ctx : CallContext) (tool_name : String) : RetrievalEventInsert :=
  { run_id := NO_RUN_SENTINEL
    agent_name := ctx.requester.elim NO_RUN_SENTINEL (·.subject)
    tool_name
    status := .error
    kb_version := NO_RUN_SENTINEL }

/-- `_ledgered`: the rows of a call with the one that the wrapper writes for an exception that no tool has
ledgered. -/
def ledgered (ctx : CallContext) (tool_name : String) {p : Handler ToolResponse} (run : p.Run Fault) :
    List RetrievalEventInsert :=
  run.entries ++
    match run.ending with
    | .raised (.unexpected _) | .failed .exception => [unexpected_event ctx tool_name]
    | _ => []

end AgenticKb.ContextBroker

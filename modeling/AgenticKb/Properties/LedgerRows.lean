import AgenticKb.ContextBroker.Handlers
import AgenticKb.Properties.PackBudget

open AgenticKb.Lib

namespace AgenticKb.ContextBroker

open Program

/-- An error that says that its row is written. -/
def ToolFailure.tells : ToolFailure → Bool
  | .ledgered _ => true
  | .unexpected _ => false

/-- What `except Exception` catches. -/
def Fault.covered : Fault → Bool
  | .exception => true
  | .cancelled => false

/-- The client of the session may call the tool. -/
def CallContext.authorized (ctx : CallContext) (tool_name : String) : Bool :=
  ctx.client.any fun client => client_may_call client tool_name

/-- A call leaves a row of its own or ends with an exception, if its work does not fail: any but the official
client's gate, and the change pack of a knowledge base that has not been built. -/
def ToolCall.leaves_row (ctx : CallContext) : ToolCall → Bool
  | .platform_trust _ => !ctx.authorized "context.platform_trust"
  | .plain (.create_change_pack ..) =>
    !ctx.authorized "context.create_change_pack" || ctx.requester.isNone || ctx.active.isSome
  | _ => true

/-- No ordinary exception is raised after the call's row, and the call is not cancelled before it. -/
def Orderly {p : Handler ToolResponse} (run : p.Run Fault) : Prop := run.orderly Fault.covered false = true

theorem length_ledgered {ctx : CallContext} {tool_name : String} {p : Handler ToolResponse} (run : p.Run Fault) :
    (ledgered ctx tool_name run).length = run.entries.length + run.ending.owed ToolFailure.tells Fault.covered := by
  unfold ledgered
  rw [List.length_append]
  cases run.ending with
  | returned => rfl
  | raised error => cases error <;> rfl
  | failed fault => cases fault <;> rfl

section Rows

variable {deps : ServerDeps} {ctx : CallContext} {requester : Requester} {client : ClientIdentity}

theorem leavesOne_conclude (row : Writing) : LeavesOne ToolFailure.tells false (conclude row) := by
  unfold conclude
  cases row.reply with
  | error => exact ⟨rfl, rfl⟩
  | _ => exact ⟨rfl, fun _ _ => rfl⟩

/-- Whatever the server does between its awaits, a pack's tool leaves one row. -/
theorem leavesOne_follow (call : Call) (fuel : Nat) (action : Action) :
    LeavesOne ToolFailure.tells false (follow deps call fuel action) := by
  induction fuel generalizing call action with
  | zero =>
    cases action with
    | await stage =>
      cases stage with
      | writing row => exact leavesOne_conclude row
      | _ => exact fun answer => answer.elim
    | make pack row => exact fun _ => leavesOne_conclude row
    | charge charge cards recorded row => exact fun _ => leavesOne_conclude row
    | raise => rfl
  | succ fuel ih =>
    cases action with
    | await stage =>
      cases stage with
      | writing row => exact leavesOne_conclude row
      | _ => exact fun s => ih call _
    | make pack row => exact fun _ => leavesOne_conclude row
    | charge charge cards recorded row => exact fun _ => leavesOne_conclude row
    | raise => rfl

/-- What a tool does with the active version. -/
theorem leavesOne_serving {tool_name query_text : String} {serve : ActiveVersion → Handler ToolResponse}
    (hserve : ∀ active, LeavesOne ToolFailure.tells false (serve active)) :
    LeavesOne ToolFailure.tells false (serving ctx requester tool_name query_text serve) := by
  intro _
  cases ctx.active with
  | none => exact ⟨rfl, rfl⟩
  | some active => exact hserve active

theorem leavesOne_serving_in_session {tool_name query_text : String} {serve : ActiveVersion → Handler ToolResponse}
    (hserve : ∀ active, LeavesOne ToolFailure.tells false (serve active)) :
    LeavesOne ToolFailure.tells false (serving_in_session ctx requester tool_name query_text serve) := by
  intro _
  cases ctx.active with
  | none => exact ⟨rfl, fun _ => rfl⟩
  | some active => exact hserve active

theorem leavesOne_kb_search (query session_key : String) :
    LeavesOne ToolFailure.tells false (kb_search_handler deps ctx requester query session_key) := by
  apply leavesOne_serving
  intro active before
  show LeavesOne _ _ (if _ then _ else _)
  split
  · exact fun artifacts => ⟨rfl, fun _ _ => rfl⟩
  · exact ⟨rfl, fun _ _ => rfl⟩

/-- Every tool that asks for the requester leaves one row, once it has asked; a change pack does if there is an
active version. -/
theorem leavesOne_tool_handler (tool : Tool)
    (hactive : ∀ run_id query, tool = .create_change_pack run_id query → ctx.active.isSome = true) :
    LeavesOne ToolFailure.tells false (tool_handler deps ctx client requester tool) := by
  cases tool with
  | get_neighbors request =>
    apply leavesOne_serving_in_session
    exact fun active neighbors => ⟨rfl, fun _ _ => rfl⟩
  | kb_search query session_key =>
    intro _
    apply leavesOne_or_raise rfl
    intro session_key _
    exact leavesOne_kb_search query session_key
  | get_task_context task_description =>
    apply leavesOne_serving
    exact fun active response => ⟨rfl, fun _ _ => rfl⟩
  | verify_answer request client_id =>
    apply leavesOne_serving_in_session
    exact fun active claim_results => ⟨rfl, fun _ _ => rfl⟩
  | create_change_pack run_id query =>
    obtain ⟨active, hsome⟩ := Option.isSome_iff_exists.1 (hactive run_id query rfl)
    intro _
    rw [hsome]
    exact fun response => ⟨rfl, fun _ => rfl⟩
  | list_retrievals run_id => exact fun events _ => ⟨rfl, fun _ _ => rfl⟩
  | get_review_draft repo pr_number => exact fun draft => ⟨rfl, fun _ => rfl⟩

/-- A handler goes on only for a client that may call its tool. -/
theorem leavesOne_authorize {tool_name : String} {next : ClientIdentity → Handler ToolResponse}
    (hnext : ctx.authorized tool_name = true → ∀ client, LeavesOne ToolFailure.tells false (next client)) :
    LeavesOne ToolFailure.tells false ((authorize ctx tool_name).bind next) := by
  unfold authorize
  intro _
  cases hclient : ctx.client with
  | none => rfl
  | some client =>
    show LeavesOne _ _ ((if client_may_call client tool_name then _ else _ : Handler ClientIdentity).bind next)
    by_cases hmay : client_may_call client tool_name = true
    · rw [if_pos hmay]
      refine hnext ?_ client
      rw [CallContext.authorized, hclient]
      exact hmay
    · rw [if_neg hmay]
      rfl

theorem leavesOne_current_requester {next : Requester → Handler ToolResponse}
    (hnext : ctx.requester.isSome = true → ∀ requester, LeavesOne ToolFailure.tells false (next requester)) :
    LeavesOne ToolFailure.tells false ((current_requester ctx).bind next) := by
  intro _
  cases hrequester : ctx.requester with
  | none => rfl
  | some requester =>
    apply hnext
    rw [hrequester]
    rfl

theorem leavesOne_handler {fuel : Nat} {call : ToolCall} (hrow : call.leaves_row ctx = true) :
    LeavesOne ToolFailure.tells false (handler deps ctx fuel call) := by
  apply leavesOne_authorize
  intro hauthorized client
  cases call with
  | pack request =>
    apply leavesOne_current_requester
    intro _ requester s
    exact leavesOne_follow ..
  | plain tool =>
    apply leavesOne_current_requester
    intro hrequester requester
    apply leavesOne_tool_handler
    rintro run_id query rfl
    have hname : (ToolCall.plain (.create_change_pack run_id query)).tool_name = "context.create_change_pack" := rfl
    rw [hname] at hauthorized
    simp only [ToolCall.leaves_row, hauthorized, Option.isNone_eq_false_iff.2 hrequester, Bool.not_true, Bool.false_or]
      at hrow
    exact hrow
  | platform_trust receipt =>
    have hname : (ToolCall.platform_trust receipt).tool_name = "context.platform_trust" := rfl
    rw [hname] at hauthorized
    simp only [ToolCall.leaves_row, hauthorized, Bool.not_true, Bool.false_eq_true] at hrow

/-- The two calls that leave no row. -/
theorem leavesNone_handler {fuel : Nat} {call : ToolCall} (hrow : call.leaves_row ctx = false) :
    LeavesNone (handler deps ctx fuel call) := by
  have hauthorized : ctx.authorized call.tool_name = true := by
    cases call with
    | pack => cases hrow
    | platform_trust receipt =>
      simp only [ToolCall.leaves_row, Bool.not_eq_false'] at hrow
      exact hrow
    | plain tool =>
      cases tool with
      | create_change_pack =>
        simp only [ToolCall.leaves_row, Bool.or_eq_false_iff, Bool.not_eq_false'] at hrow
        exact hrow.1.1
      | _ => cases hrow
  cases hclient : ctx.client with
  | none =>
    rw [CallContext.authorized, hclient] at hauthorized
    cases hauthorized
  | some client =>
    rw [CallContext.authorized, hclient, Option.any_some] at hauthorized
    intro _
    rw [hclient]
    show LeavesNone ((if client_may_call client call.tool_name then _ else _ : Handler ClientIdentity).bind _)
    rw [if_pos hauthorized]
    cases call with
    | pack => cases hrow
    | platform_trust receipt => exact fun _ => trivial
    | plain tool =>
      cases tool with
      | create_change_pack run_id query =>
        simp only [ToolCall.leaves_row, Bool.or_eq_false_iff, Option.isNone_eq_false_iff, Option.isSome_eq_false_iff,
          Option.isNone_iff_eq_none] at hrow
        obtain ⟨requester, hrequester⟩ := Option.isSome_iff_exists.1 hrow.1.2
        intro _
        rw [hrequester]
        intro _
        rw [hrow.2]
        exact fun _ => trivial
      | _ => cases hrow

/-- A request that reaches its handler leaves exactly one row exactly if no ordinary exception is raised after the
call's own row and the call is not cancelled before it, and, where the tool leaves no row of its own, if its work
fails. -/
theorem one_row_per_call_iff (deps : ServerDeps) (ctx : CallContext) (fuel : Nat) (call : ToolCall)
    (run : (handler deps ctx fuel call).Run Fault) :
    (ledgered ctx call.tool_name run).length = 1 ↔
      Orderly run ∧ (call.leaves_row ctx = true ∨ run.fault.isSome = true) := by
  rw [length_ledgered]
  by_cases hrow : call.leaves_row ctx = true
  · have hleaves : LeavesOne ToolFailure.tells false (handler deps ctx fuel call) := leavesOne_handler hrow
    have hone : false.toNat + run.entries.length + run.ending.owed ToolFailure.tells Fault.covered = 1 ↔ Orderly run :=
      run.one_record_iff hleaves
    rw [Bool.toNat_false, Nat.zero_add] at hone
    rw [hone]
    exact ⟨fun horderly => ⟨horderly, .inl hrow⟩, fun h => h.1⟩
  · have hleaves : LeavesNone (handler deps ctx fuel call) := leavesNone_handler (Bool.eq_false_iff.2 hrow)
    have hnone : run.entries.length + run.ending.owed ToolFailure.tells Fault.covered = 1 ↔
        Orderly run ∧ run.fault.isSome = true := run.no_record_iff hleaves
    rw [hnone]
    constructor
    · rintro ⟨horderly, hfault⟩
      exact ⟨horderly, .inr hfault⟩
    · rintro ⟨horderly, hleaves | hfault⟩
      · exact absurd hleaves hrow
      · exact ⟨horderly, hfault⟩

end Rows

section Broken

/-- An agent's session before and after the first build. -/
def agent_session (active : Option ActiveVersion) : CallContext :=
  { client := some { client_id := "app" }, requester := some outsider, session_key := some "session", active }

def one_checked_claim : VerifyAnswerRequest where
  answer_id := "answer"
  claims := [{ claim_id := "claim", text := "text", evidence_ids := ["7"], evidence_ids_ne := List.cons_ne_nil _ _ }]
  verifier_levels := [.L0]
  claims_ne := List.cons_ne_nil _ _
  verifier_levels_ne := List.cons_ne_nil _ _

/-- The change pack of a knowledge base that has not been built leaves no row; a receipt that cannot be signed
after its row leaves two. -/
theorem one_row_per_call_broken :
    (∃ run : (handler .plain (agent_session none) 0 (.plain (.create_change_pack none "task"))).Run Fault,
      ledgered (agent_session none) "context.create_change_pack" run = []) ∧
    ∃ run : (handler .plain (agent_session (some ⟨"1", 1⟩)) 0 (.plain (.verify_answer one_checked_claim none))).Run Fault,
      (ledgered (agent_session (some ⟨"1", 1⟩)) VERIFY_TOOL_NAME run).map (·.status) = [.approved, .error] :=
  ⟨⟨.answers () (.answers () (.answers () (.answers () .done))), rfl⟩,
    .answers () (.answers () (.answers () (.answers [] (.records (.fails .exception))))), rfl⟩

end Broken

end AgenticKb.ContextBroker

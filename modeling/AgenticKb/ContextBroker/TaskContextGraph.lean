import AgenticKb.ContextBroker.TaskContext

open AgenticKb.Lib

namespace AgenticKb.ContextBroker

section Floor

variable (floor : ConfidenceTier)

def floor_scope (scope : ScopeResolution) : ScopeResolution :=
  { scope with entities := scope.entities.filter fun e => admits_floor e.confidence_tier floor }

def floor_blast (blast : BlastResolution) : BlastResolution :=
  let keep (entries : List BlastEntry) := entries.filter fun e => admits_floor e.confidence_tier floor
  { callers := keep blast.callers, callees := keep blast.callees, tests := keep blast.tests }

def floor_conventions (conventions : List Convention) : List Convention :=
  conventions.filter fun c => admits_floor c.confidence_tier floor

/-- Prior changes are ranked by keyword; a higher floor forces them out. -/
def floor_prior (prior : List PriorChange) : List PriorChange := if admits_floor .interpreted floor then prior else []

end Floor

/-- The lists the trim loop pops from. -/
structure Kept where
  prior : List PriorChange
  conventions : List Convention
  callees : List BlastEntry
  callers : List BlastEntry
  tests : List BlastEntry
deriving DecidableEq, Repr

namespace Kept

def blast (kept : Kept) : BlastResolution :=
  { callers := kept.callers, callees := kept.callees, tests := kept.tests }

/-- Every entry of the blast radius still kept. -/
def entries (kept : Kept) : List BlastEntry := kept.callers ++ kept.callees ++ kept.tests

def size (kept : Kept) : Nat :=
  kept.prior.length + kept.conventions.length + kept.callees.length + kept.callers.length + kept.tests.length

/-- One item off the lowest-value tail: prior changes, conventions, callees, callers, tests. -/
def drop_tail (kept : Kept) : Option Kept :=
  if !kept.prior.isEmpty then some { kept with prior := kept.prior.dropLast }
  else if !kept.conventions.isEmpty then some { kept with conventions := kept.conventions.dropLast }
  else if !kept.callees.isEmpty then some { kept with callees := kept.callees.dropLast }
  else if !kept.callers.isEmpty then some { kept with callers := kept.callers.dropLast }
  else if !kept.tests.isEmpty then some { kept with tests := kept.tests.dropLast }
  else none

/-- The trim loop: it stops at what fits, or where nothing is left to drop. -/
def trim (fits : Kept → Bool) : Nat → Kept → Kept
  | 0, kept => kept
  | steps + 1, kept =>
    if fits kept then kept
    else match kept.drop_tail with
      | some rest => trim fits steps rest
      | none => kept

end Kept

/-- `_collect_evidence`: every artifact cited, by the text of its id. -/
def collect_evidence (str_uuid : Uuid → String) (scope : ScopeResolution) (kept : Kept) : List Uuid :=
  sorted (fun a b => str_le (str_uuid a) (str_uuid b))
    (scope.entities.map (·.entity_id) ++ scope.ambiguous.flatMap (·.candidates) ++
      kept.entries.map (·.entity_id) ++ kept.conventions.flatMap (·.evidence_ids) ++
      kept.prior.flatMap (·.evidence_ids)).dedup

/-- The path table: every path of the blast radius once, in order. -/
def referenced_paths (kept : Kept) : List String := sorted str_le (kept.entries.map (·.path)).dedup

/-- An entry on the wire, its path replaced by its place in the table. -/
def to_wire (paths : List String) (entry : BlastEntry) : BlastRadiusEntity :=
  { entity_id := entry.entity_id
    path_ref := paths.idxOf entry.path
    symbol := entry.symbol
    edge_type := entry.edge_type
    confidence_tier := entry.confidence_tier
    caveat := entry.caveat }

section Synthesize

variable (deps : TaskContextDeps) (request : GetTaskContextRequest)

def build_response (scope : ScopeResolution) (open_questions : List String) (calls_used tokens : Nat) (kept : Kept) :
    GetTaskContextResponse :=
  let paths := referenced_paths kept
  { resolved_scope := { entities := scope.entities, ambiguous_candidates := scope.ambiguous }
    referenced_paths := paths
    blast_radius :=
      { callers := kept.callers.map (to_wire paths)
        callees := kept.callees.map (to_wire paths)
        tests := kept.tests.map (to_wire paths) }
    conventions := kept.conventions
    similar_prior_changes := kept.prior
    evidence_ids := collect_evidence deps.platform.str_uuid scope kept
    open_questions
    budget_used := { tokens, calls := calls_used } }

def UNRESOLVED_AFTER_RETRY : String :=
  "No entity in the knowledge base could be resolved for this task, even after a broadened search — the KB may not cover this area yet. Proceed from the task description and repository files directly."

/-- The requested cap clamped to the server's; a request value is never an escape hatch. -/
def response_cap : Nat :=
  let server_cap := deps.task_context_max_tokens
  let requested := request.max_tokens.getD 0
  min (if requested = 0 then server_cap else requested) server_cap

/-- What is assembled before the trim: the pass above the floor. -/
def assembled (pass : TaskContextPass) : Kept :=
  let blast := floor_blast request.confidence_floor pass.blast
  { prior := floor_prior request.confidence_floor pass.prior_changes
    conventions := floor_conventions request.confidence_floor pass.conventions
    callees := blast.callees
    callers := blast.callers
    tests := blast.tests }

def open_questions_of (pass : TaskContextPass) (broadened : Bool) : List String :=
  let scope := floor_scope request.confidence_floor pass.scope
  if scope.unresolved && broadened then scope.open_questions ++ [UNRESOLVED_AFTER_RETRY] else scope.open_questions

/-- The response of some kept lists as the loop measures it, its token counter at zero. -/
def measured (pass : TaskContextPass) (broadened : Bool) (calls_used : Nat) (kept : Kept) : GetTaskContextResponse :=
  build_response deps (floor_scope request.confidence_floor pass.scope) (open_questions_of request pass broadened)
    calls_used 0 kept

/-- `synthesize_node`: the response trimmed to the cap, stamped with the cost that was measured. -/
def synthesize (pass : TaskContextPass) (broadened : Bool) (calls_used : Nat) : GetTaskContextResponse :=
  let tokens (kept : Kept) :=
    estimate_tokens (deps.response_dump_json (measured deps request pass broadened calls_used kept))
  let before := assembled request pass
  let kept := before.trim (fun kept => decide (tokens kept ≤ response_cap deps request)) before.size
  { measured deps request pass broadened calls_used kept with
    budget_used := { tokens := tokens kept, calls := calls_used } }

end Synthesize

section Graph

variable (deps : TaskContextDeps) (db : Database)

/-- The run of the graph: one pass, and one broadened retry where its scope is truly empty. -/
def run_task_context_graph (ctx : TaskContextCtx) : Option GetTaskContextResponse := do
  let first ← fan_out deps db ctx false
  if first.scope.unresolved then
    let second ← fan_out deps db ctx true
    some (synthesize deps ctx.request second true (first.calls + second.calls))
  else some (synthesize deps ctx.request first false first.calls)

/-- `get_task_context`; the error is the tool's, and `none` is a response its schema refuses. -/
def get_task_context (request : GetTaskContextRequest) (requester : Requester) :
    Except String (Option GetTaskContextResponse) :=
  match fetch_active_version db with
  | none => .error MSG_NO_ACTIVE_VERSION
  | some active => .ok (run_task_context_graph deps db { requester, request, build_seq := active.build_seq })

end Graph

/-- Every answer is put together from one pass of its build. -/
theorem pass_of_get_task_context {deps : TaskContextDeps} {db : Database} {request : GetTaskContextRequest}
    {requester : Requester} {response : GetTaskContextResponse}
    (h : get_task_context deps db request requester = .ok (some response)) :
    ∃ active pass broadened calls_used, fetch_active_version db = some active ∧
      fan_out deps db { requester, request, build_seq := active.build_seq } broadened = some pass ∧
      response = synthesize deps request pass broadened calls_used := by
  unfold get_task_context at h
  cases hactive : fetch_active_version db with
  | none =>
    rw [hactive] at h
    cases h
  | some active =>
    rw [hactive] at h
    have hrun := Except.ok.inj h
    simp only [run_task_context_graph, Option.bind_eq_bind, Option.bind_eq_some_iff] at hrun
    obtain ⟨first, hfirst, hrun⟩ := hrun
    split at hrun
    · simp only [Option.bind_eq_some_iff, Option.some.injEq] at hrun
      obtain ⟨second, hsecond, rfl⟩ := hrun
      exact ⟨active, second, true, _, rfl, hsecond, rfl⟩
    · obtain rfl := Option.some.inj hrun
      exact ⟨active, first, false, _, rfl, hfirst, rfl⟩

/-- The blast radius of a pass is that of its scope. -/
theorem blast_of_fan_out {deps : TaskContextDeps} {db : Database} {ctx : TaskContextCtx} {broadened : Bool}
    {pass : TaskContextPass} (h : fan_out deps db ctx broadened = some pass) :
    pass.blast = (blast_radius (admitted_edges_at db ctx.build_seq) deps.settings.max_graph_neighbors
      (pass.scope.entities.map (·.entity_id)) (hydrate_allowed deps db ctx) deps.platform.str_uuid).1 := by
  simp only [fan_out, blast_radius_node, Option.bind_eq_bind, Option.bind_eq_some_iff] at h
  obtain ⟨resolved, hresolved, blast, ⟨resolved', hresolved', hblast⟩, conventions, -, prior, -, hpass⟩ := h
  rw [hresolved] at hresolved'
  obtain rfl := Option.some.inj hresolved'
  obtain rfl := Option.some.inj hblast
  obtain rfl := Option.some.inj hpass
  rfl

end AgenticKb.ContextBroker

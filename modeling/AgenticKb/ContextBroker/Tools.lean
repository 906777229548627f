import AgenticKb.ContextBroker.Calls

open AgenticKb.Lib

namespace AgenticKb.ContextBroker

structure KbSearchHit where
  title : String
  artifact_type : ArtifactType
  source_uri : String
  snippet : String
deriving DecidableEq, Repr

/-- What `get_task_context` assembles, as far as the ledger is concerned. -/
structure TaskContextResponse where
  evidence_ids : List Uuid
  tokens : Nat
deriving DecidableEq, Repr

/-- The server's services: the dump of a search hit and the task-context graph beside the verifier's. -/
structure ServerDeps extends VerifierDeps where
  hit_dump_json : KbSearchHit → String
  run_task_context_graph : Database → ActiveVersion → Requester → String → TaskContextResponse

/-- The tools that use no pack. -/
inductive Tool where
  | get_neighbors (request : GetNeighborsRequest)
  | kb_search (query session_key : String)
  | get_task_context (task_description : String)
  | verify_answer (request : VerifyAnswerRequest) (client_id : Option String)
  | create_change_pack (run_id : Option String) (query : String)
  | list_retrievals (run_id : String)
  | get_review_draft (repo pr_number : String)

def Tool.tool_name : Tool → String
  | .get_neighbors _ => "graph.get_neighbors"
  | .kb_search .. => "kb_search"
  | .get_task_context _ => "get_task_context"
  | .verify_answer .. => VERIFY_TOOL_NAME
  | .create_change_pack .. => "context.create_change_pack"
  | .list_retrievals _ => "ledger.list_retrievals"
  | .get_review_draft .. => "get_review_draft"

/-- `kb_search` answers only while both caps remain. -/
def kb_budget_open (allowance : AgentAllowance) (usage : AgentUsage) : Bool :=
  decide (usage.requests < allowance.max_requests) && decide (usage.tokens < allowance.max_tokens)

def MAX_WINDOWS : Nat := 1024

/-- `KbSearchBudgetStore.window_for`: the window moves to the back; a new one makes room first. -/
def window_for (windows : Dict (String × String) AgentUsage) (session_key subject : String) :
    Dict (String × String) AgentUsage :=
  match windows.get? (session_key, subject) with
  | some usage => windows.del (session_key, subject) ++ [((session_key, subject), usage)]
  | none => windows.drop (windows.length + 1 - MAX_WINDOWS) ++ [((session_key, subject), {})]

def SNIPPET_CHARS : Nat := 200

def kb_search_hit (u : Unicode) (row : ArtifactRow) : KbSearchHit :=
  let snippet_source := nonempty_or row.body_text (row.search_text.getD "")
  { title := nonempty_or row.title row.artifact_type.text
    artifact_type := row.artifact_type
    source_uri := row.source_uri
    snippet := take_chars (normalize_whitespace u snippet_source) SNIPPET_CHARS }

/-- `insert_event`. -/
def Database.insert_event (db : Database) (event : RetrievalEventInsert) : Database :=
  { db with retrieval_events := db.retrieval_events ++ [event] }

/-- A finished call of a tool without a pack: the database with its ledger row, the windows with its
charge and without it, the version it served and what it returns. -/
structure ToolRun where
  db : Database
  windows : Dict (String × String) AgentUsage
  refunded : Dict (String × String) AgentUsage
  kb_version : String
  reply : Reply

section Tools

variable (deps : ServerDeps) (db : Database) (windows : Dict (String × String) AgentUsage) (requester : Requester)

/-- The ledger row of an approved call, the columns that most tools leave out aside. -/
def approved_event (tool_name run_id kb_version : String) (query_text : Option String)
    (returned_artifact_ids : List Uuid) : RetrievalEventInsert :=
  { run_id
    agent_name := requester.subject
    tool_name
    status := .approved
    kb_version
    query_text
    returned_artifact_ids }

/-- A call that takes nothing from a window, with its row. -/
def unmetered_run (event : RetrievalEventInsert) (reply : Reply) : ToolRun :=
  { db := db.insert_event event, windows, refunded := windows, kb_version := event.kb_version, reply }

/-- A call before the first build. -/
def unserved_run (tool_name query_text : String) : ToolRun :=
  unmetered_run db windows (error_event requester tool_name (some query_text)) (.error MSG_NO_ACTIVE_VERSION)

def get_neighbors_run (request : GetNeighborsRequest) (active : ActiveVersion) : ToolRun :=
  let neighbors := (walk_graph deps.toBrokerDeps db active.build_seq requester request).found.map (·.hop.node)
  let event := approved_event requester "graph.get_neighbors" NO_RUN_SENTINEL active.kb_version
    (some (deps.platform.str_uuid request.artifact_id)) neighbors
  unmetered_run db windows event (.found neighbors)

def kb_search (query session_key : String) (active : ActiveVersion) : ToolRun :=
  let allowance := deps.budget_policy.allowance_for requester.subject
  let windows := window_for windows session_key requester.subject
  let usage := (windows.get? (session_key, requester.subject)).getD {}
  let event : RetrievalEventInsert :=
    { approved_event requester "kb_search" NO_RUN_SENTINEL active.kb_version (some query) [] with
      normalized_query := some (normalize_query deps.platform.unicode query) }
  if kb_budget_open allowance usage then
    let hits := search_hits deps.toBrokerDeps db query active.build_seq
    let artifacts := fetch_artifacts deps.platform db ((hit_scores hits).map (·.1)) active.build_seq
    let rows := ranked_rows deps.toBrokerDeps requester none hits artifacts []
    let tokens := (rows.map fun row => estimate_tokens (deps.hit_dump_json (kb_search_hit deps.platform.unicode row))).sum
    let returned := rows.map (·.artifact_id)
    { db := db.insert_event { event with returned_artifact_ids := returned, tokens_returned := tokens }
      windows := windows.set (session_key, requester.subject) (usage.add 1 tokens)
      refunded := windows
      kb_version := active.kb_version
      reply := .found returned }
  else unmetered_run db windows { event with status := .denied } (.found [])

def get_task_context_run (task_description : String) (active : ActiveVersion) : ToolRun :=
  let response := deps.run_task_context_graph db active requester task_description
  let event := approved_event requester "get_task_context" NO_RUN_SENTINEL active.kb_version (some task_description)
    response.evidence_ids
  unmetered_run db windows { event with tokens_returned := response.tokens } (.found response.evidence_ids)

/-- The receipt names no artifact that the request did not. -/
def verify_answer_run (request : VerifyAnswerRequest) (client_id : Option String) : ToolRun :=
  let (answer, after) := verify_answer deps.toVerifierDeps db request requester client_id
  { db := after
    windows
    refunded := windows
    kb_version := (answer.toOption.map (·.graph_version)).getD NO_RUN_SENTINEL
    reply := answer.toOption.elim (.error MSG_NO_ACTIVE_VERSION) fun _ => .found [] }

/-- The files are listed by path. Before the first build the call writes no row. -/
def create_change_pack_run (run_id : Option String) (query : String) : ToolRun :=
  match fetch_active_version db with
  | none => { db, windows, refunded := windows, kb_version := NO_RUN_SENTINEL, reply := .found [] }
  | some active => unmetered_run db windows
      (approved_event requester "context.create_change_pack" (nonempty_or run_id NO_RUN_SENTINEL) active.kb_version
        (some query) []) (.found [])

def list_retrievals_run (run_id : String) : ToolRun :=
  let kb_version := (fetch_active_version db).elim NO_RUN_SENTINEL (·.kb_version)
  unmetered_run db windows (approved_event requester "ledger.list_retrievals" run_id kb_version none []) (.found [])

def get_review_draft_run (repo pr_number : String) : ToolRun :=
  unmetered_run db windows (approved_event requester "get_review_draft" NO_RUN_SENTINEL NO_RUN_SENTINEL
    (some (repo ++ "#" ++ pr_number)) []) (.found [])

/-- A call of a tool that reads the active version first. -/
def served_run (tool_name query_text : String) (serve : ActiveVersion → ToolRun) : ToolRun :=
  match fetch_active_version db with
  | none => unserved_run db windows requester tool_name query_text
  | some active => serve active

/-- A call of a tool without a pack. -/
def run_tool : Tool → ToolRun
  | .get_neighbors request => served_run db windows requester "graph.get_neighbors"
      (deps.platform.str_uuid request.artifact_id) (get_neighbors_run deps db windows requester request)
  | .kb_search query session_key => served_run db windows requester "kb_search" query
      (kb_search deps db windows requester query session_key)
  | .get_task_context task_description => served_run db windows requester "get_task_context" task_description
      (get_task_context_run deps db windows requester task_description)
  | .verify_answer request client_id => verify_answer_run deps db windows requester request client_id
  | .create_change_pack run_id query => create_change_pack_run db windows requester run_id query
  | .list_retrievals run_id => list_retrievals_run db windows requester run_id
  | .get_review_draft repo pr_number => get_review_draft_run db windows requester repo pr_number

end Tools

end AgenticKb.ContextBroker

import AgenticKb.Lib.StateGraph
import AgenticKb.ReviewPanel.Drafts

open AgenticKb.Lib

namespace AgenticKb.ReviewPanel

/-! The panel's graph, and runs of it over one table of drafts. -/

section Graph

/-- What the nodes share. -/
structure PanelState where
  pr : PRContext
  kb_context : Option String := none
  panelist_reviews : List PanelistReview := []
  reconciled : Option ReconciledReview := none
  synthesis : Option ReviewFindingsV1 := none
  draft : Option ReviewDraft := none
deriving DecidableEq

/-- What a node returns of it. -/
structure PanelUpdate where
  pr : Option PRContext := none
  kb_context : Option String := none
  panelist_reviews : List PanelistReview := []
  reconciled : Option ReconciledReview := none
  synthesis : Option ReviewFindingsV1 := none
  draft : Option ReviewDraft := none
deriving DecidableEq

inductive PanelNode where
  | load_pr
  | review (lens : Lens)
  | reconcile
  | store_draft
deriving DecidableEq

def REVIEWER_NODES : List PanelNode := PANEL_LENSES.map PanelNode.review

def PANEL_NODES : List PanelNode := .load_pr :: REVIEWER_NODES ++ [.reconcile, .store_draft]

/-- Reviews are added to those that are there; of the rest, the last value is kept. -/
def PanelState.reduce (state : PanelState) (update : PanelUpdate) : PanelState where
  pr := update.pr.getD state.pr
  kb_context := update.kb_context.or state.kb_context
  panelist_reviews := state.panelist_reviews ++ update.panelist_reviews
  reconciled := update.reconciled.or state.reconciled
  synthesis := update.synthesis.or state.synthesis
  draft := update.draft.or state.draft

/-- An input is merged into the values that a thread has. -/
def PanelState.accept : Option PanelState → PRContext → PanelState
  | none, pr => { pr }
  | some state, pr => { state with pr }

/-- Four reviewers between `load_pr` and `reconcile`, which joins them. -/
def build_panel_graph : StateGraph PanelNode PanelState PanelUpdate PRContext where
  nodes := PANEL_NODES
  edges := ([], .load_pr) :: REVIEWER_NODES.map (fun node => ([.load_pr], node)) ++
    [(REVIEWER_NODES, .reconcile), ([.reconcile], .store_draft)]
  accept := PanelState.accept
  reduce := PanelState.reduce

abbrev PanelOffer := Offer PanelNode PanelUpdate PRContext
abbrev PanelEngine := Engine PanelNode PanelState PanelUpdate PRContext

end Graph

section Nodes

structure PanelPrompts where
  reviewers : Lens → String
  synthesizer : String

structure PanelDependencies where
  parser : Parser
  prompts : PanelPrompts
  model_label : String := "unconfigured"
  max_diff_chars : Nat := MAX_DIFF_CHARS

/-- A call of the model. -/
structure Call where
  system : String
  user : String
deriving DecidableEq

/-- What the services answer while a node runs, or the error they raise. -/
structure NodeEnv where
  complete : String → String → Except String String
  search : String → Except String String
  now : Timestamp

variable (deps : PanelDependencies) (env : NodeEnv)

def OUTPUT_FORMAT_INSTRUCTION : String :=
  "OUTPUT FORMAT: respond with ONLY one JSON object matching review_findings_v1 — " ++
  "\x7b\"schema_version\": \"1.0.0\", \"verdict\": \"approve\" | \"request_changes\", " ++
  "\"findings\": [\x7b\"severity\": \"blocker\" | \"major\" | \"minor\" | \"note\", " ++
  "\"finding\": \"<what and where>\", \"evidence_ids\": [\"<file path or diff hunk>\"]\x7d], " ++
  "\"open_questions\": [\"<question>\"]\x7d. " ++
  "No prose, no markdown fences, no extra keys."

/-- One model call, and one more where the first reply is not a review. -/
def complete_with_schema_repair (system user lens : String) : List Call × Except String ReviewFindingsV1 :=
  match env.complete system user with
  | .error exc => ([{ system, user }], .error exc)
  | .ok raw =>
    match parse_review_findings deps.parser raw lens with
    | .ok findings => ([{ system, user }], .ok findings)
    | .error exc =>
      let repair := schema_repair_prompt user exc
      ([{ system, user }, { system, user := repair }],
        (env.complete system repair).bind fun raw => parse_review_findings deps.parser raw lens)

def changed_paths (diff : String) (limit : Nat) : List String :=
  (((splitlines diff).filter fun line => startswith line "+++ b/").map fun line => strip_leading line "+++ b/").take limit

/-- The node `load_pr`. -/
def load_pr_node (state : PanelState) : Except String PanelUpdate :=
  let pr := load_pr state.pr deps.max_diff_chars
  let query := strip deps.parser.unicode (join " " (pr.title :: changed_paths pr.diff 5))
  (if query ≠ "" then env.search query else .ok "").map fun kb_context => { pr := some pr, kb_context := some kb_context }

def reviewer_system (lens : Lens) : String := join_blocks [deps.prompts.reviewers lens, OUTPUT_FORMAT_INSTRUCTION]

/-- What a reviewer is asked for, of a state. -/
def review_reply (lens : Lens) (state : PanelState) : List Call × Except String ReviewFindingsV1 :=
  complete_with_schema_repair deps env (reviewer_system deps lens)
    (reviewer_prompt state.pr (state.kb_context.getD "")) lens.text

def review (lens : Lens) (state : PanelState) : List Call × Except String PanelUpdate :=
  let (calls, findings) := review_reply deps env lens state
  (calls, findings.map fun review => { panelist_reviews := [{ lens := lens.text, review }] })

/-- `json.dumps(value, indent=2)` -/
def dumps (value : Json) : String := String.ofList (dump_indented 0 value)

/-- What the synthesizer is asked for, of the reviews of a state. -/
def synthesis_reply (state : PanelState) : List Call × Except String ReviewFindingsV1 :=
  complete_with_schema_repair deps env (join_blocks [deps.prompts.synthesizer, OUTPUT_FORMAT_INSTRUCTION])
    (synthesizer_prompt state.pr (dumps (.arr (state.panelist_reviews.map PanelistReview.model_dump)))
      (dumps (reconcile deps.parser.unicode state.panelist_reviews).model_dump)) "synthesizer"

def reconcile_node (state : PanelState) : List Call × Except String PanelUpdate :=
  let merged := reconcile deps.parser.unicode state.panelist_reviews
  let (calls, synthesis) := synthesis_reply deps env state
  (calls, synthesis.map fun synthesis =>
    { reconciled := some merged, synthesis := some synthesis
      draft := some (build_draft state.pr merged synthesis deps.model_label (decide (state.kb_context.getD "" ≠ "")) env.now) })

/-- A run of a node. `store_draft` works on the table instead. -/
def run_node (node : PanelNode) (state : PanelState) : Option (List Call × Except String PanelUpdate) :=
  match node with
  | .load_pr => some ([], load_pr_node deps env state)
  | .review lens => some (review deps env lens state)
  | .reconcile => some (reconcile_node deps env state)
  | .store_draft => none

end Nodes

section Store

/-- A row of the table `review_draft`. -/
structure DraftRow where
  repo : String
  pr_number : Int
  head_sha : String
  draft : ReviewDraft
  created_at : Timestamp

def draft_row (draft : ReviewDraft) (now : Timestamp) : DraftRow :=
  { repo := draft.repo, pr_number := draft.pr_number, head_sha := draft.head_sha, draft, created_at := now }

/-- `INSERT … ON CONFLICT (draft_key) DO NOTHING` -/
def insert_draft (drafts : Dict String DraftRow) (draft : ReviewDraft) (now : Timestamp) : Dict String DraftRow :=
  drafts.setdefault draft.draft_key (draft_row draft now)

/-- The row of a pull request at a commit, or its newest one, as the MCP server reads it. -/
def fetch_review_draft (drafts : Dict String DraftRow) (repo : String) (pr_number : Int) (head_sha : Option String) :
    Option (String × DraftRow) :=
  let rows := drafts.filter fun entry => entry.2.repo == repo && entry.2.pr_number == pr_number &&
    (head_sha.isNone || head_sha == some entry.2.head_sha)
  (sorted (fun a b => decide (b.2.created_at ≤ a.2.created_at)) rows).head?

end Store

section Runs

/-- Where a thread is saved: by a checkpointer, or in the attempt alone. -/
inductive Saver where
  | shared (checkpointer : Nat)
  | own (attempt : Nat)
deriving DecidableEq

/-- A thread: a draft's key, with its saver. -/
structure ThreadId where
  saver : Saver
  key : String
deriving DecidableEq

inductive DraftSource where
  | stored | computed | resumed
deriving DecidableEq

inductive Entry where
  /-- A draft is read from the table. -/
  | read (key : String) (draft : ReviewDraft)
  | deleted (key : String)
  | returned (key : String) (source : DraftSource) (draft : ReviewDraft)

/-- How far `compute_draft` has come. -/
inductive Stage where
  /-- No draft is stored, and the state of the thread is asked for. -/
  | missed
  /-- The thread is complete, but its row is gone: an input would be merged into the reviews it has. -/
  | clearing
  | invoking (resuming : Bool)
  | running (resuming : Bool)
  | ended
deriving DecidableEq

structure Attempt where
  pr : PRContext
  checkpointer : Option Nat
  stage : Stage

def Attempt.key (a : Attempt) : String := draft_key a.pr.repo a.pr.number a.pr.head_sha

def Attempt.thread (n : Nat) (a : Attempt) : ThreadId := { saver := a.checkpointer.elim (.own n) .shared, key := a.key }

/-- A node that runs in an attempt, on the values that it was given. -/
structure Task where
  attempt : Nat
  thread : ThreadId
  node : PanelNode
  values : PanelState
  /-- `store_draft` has inserted its draft, and has yet to read the row. -/
  inserted : Bool := false

structure Panel where
  drafts : Dict String DraftRow := []
  attempts : List Attempt := []
  tasks : List Task := []
  /-- What the engine was told of the threads. -/
  given : List (ThreadId × PanelOffer) := []
  log : List Entry := []

namespace Panel

variable (deps : PanelDependencies) (s : Panel)

def record (entries : List Entry) : Panel := { s with log := s.log ++ entries }

def offer (t : ThreadId) (offer : PanelOffer) : Panel := { s with given := s.given ++ [(t, offer)] }

def offers (t : ThreadId) : List PanelOffer := s.given.filterMap fun entry => if entry.1 = t then some entry.2 else none

def set_stage (n : Nat) (stage : Stage) : Panel := { s with attempts := s.attempts.modify n fun a => { a with stage } }

def end_task (i : Nat) : Panel := { s with tasks := s.tasks.eraseIdx i }

/-- `get_stored_draft`, for a pull request as it is on GitHub. Without a draft `compute_draft` begins. -/
def get_stored_draft (checkpointer : Option Nat) (pr : PRContext) : Panel :=
  let key := draft_key pr.repo pr.number pr.head_sha
  match s.drafts.get? key with
  | some row => (s.record [.read key row.draft]).record [.returned key .stored row.draft]
  | none =>
    let stage := if checkpointer.isSome then .missed else .invoking false
    { s with attempts := s.attempts ++ [{ pr, checkpointer, stage }] }

/-- `aget_state`: nodes that are to run make a run to resume; values alone, a complete one. -/
def aget_state (n : Nat) (next : List PanelNode) (has_values : Bool) : Option Panel :=
  (s.attempts[n]?).bind fun a =>
    if a.stage = .missed then
      some (s.set_stage n (if next ≠ [] then .invoking true else if has_values then .clearing else .invoking false))
    else none

def adelete_thread (n : Nat) : Option Panel :=
  (s.attempts[n]?).bind fun a =>
    if a.stage = .clearing then some ((s.offer (a.thread n) .delete).set_stage n (.invoking false)) else none

def ainvoke (n : Nat) : Option Panel :=
  (s.attempts[n]?).bind fun a =>
    match a.stage with
    | .invoking resuming => some ((s.offer (a.thread n) (if resuming then .resume else .input a.pr)).set_stage n (.running resuming))
    | _ => none

/-- The engine runs a node. -/
def hand (n : Nat) (node : PanelNode) (values : PanelState) : Option Panel :=
  (s.attempts[n]?).bind fun a =>
    match a.stage with
    | .running _ => some { s with tasks := s.tasks ++ [{ attempt := n, thread := a.thread n, node, values }] }
    | _ => none

/-- A node returns, or an error of it ends the attempt. -/
def run (i : Nat) (env : NodeEnv) : Option Panel :=
  (s.tasks[i]?).bind fun task => (run_node deps env task.node task.values).map fun result =>
    match result.2 with
    | .ok update => (s.end_task i).offer task.thread (.update task.node update)
    | .error _ => (s.end_task i).set_stage task.attempt .ended

/-- The first statement of `store_draft`. -/
def insert (i : Nat) (now : Timestamp) : Option Panel :=
  (s.tasks[i]?).bind fun task =>
    if task.node = .store_draft ∧ task.inserted = false then
      match task.values.draft with
      | none => some ((s.end_task i).set_stage task.attempt .ended)
      | some draft =>
        some { s with drafts := insert_draft s.drafts draft now, tasks := s.tasks.set i { task with inserted := true } }
    else none

/-- The second one, and the end of the node. -/
def fetch (i : Nat) : Option Panel :=
  (s.tasks[i]?).bind fun task => task.values.draft.bind fun draft =>
    if task.node = .store_draft ∧ task.inserted = true then
      match s.drafts.get? draft.draft_key with
      | none => some ((s.end_task i).set_stage task.attempt .ended)
      | some row =>
        some (((s.end_task i).record [.read draft.draft_key row.draft]).offer task.thread
          (.update .store_draft { draft := some row.draft }))
    else none

/-- `ainvoke` returns, and the attempt gives back the draft. -/
def finish (n : Nat) (values : PanelState) : Option Panel :=
  (s.attempts[n]?).bind fun a =>
    match a.stage, values.draft with
    | .running resuming, some draft =>
      some ((s.record [.returned a.key (if resuming then .resumed else .computed) draft]).set_stage n .ended)
    | .running _, none => some (s.set_stage n .ended)
    | _, _ => none

end Panel

/-- The steps of attempts, which overlap as they like. -/
inductive Event where
  | get_stored_draft (checkpointer : Option Nat) (pr : PRContext)
  | aget_state (n : Nat) (next : List PanelNode) (has_values : Bool)
  | adelete_thread (n : Nat)
  | ainvoke (n : Nat)
  | hand (n : Nat) (node : PanelNode) (values : PanelState)
  | run (i : Nat) (env : NodeEnv)
  | insert (i : Nat) (now : Timestamp)
  | fetch (i : Nat)
  | finish (n : Nat) (values : PanelState)
  /-- The attempt raises, or its process is killed. -/
  | stop (n : Nat)
  /-- A row is deleted, by no part of the panel. -/
  | delete (key : String)

def Panel.step (deps : PanelDependencies) (s : Panel) : Event → Option Panel
  | .get_stored_draft checkpointer pr => some (s.get_stored_draft checkpointer pr)
  | .aget_state n next has_values => s.aget_state n next has_values
  | .adelete_thread n => s.adelete_thread n
  | .ainvoke n => s.ainvoke n
  | .hand n node values => s.hand n node values
  | .run i env => s.run deps i env
  | .insert i now => s.insert i now
  | .fetch i => s.fetch i
  | .finish n values => s.finish n values
  | .stop n => some (s.set_stage n .ended)
  | .delete key => some (({ s with drafts := s.drafts.del key } : Panel).record [.deleted key])

/-- The engine hands out values and ends attempts as it may, after what their threads were given. -/
def Panel.Allows (engine : PanelEngine) (s : Panel) : Event → Prop
  | .hand n node values => ∀ a ∈ s.attempts[n]?, engine.hands (s.offers (a.thread n)) node values
  | .finish n values => ∀ a ∈ s.attempts[n]?, engine.returns (s.offers (a.thread n)) values
  | _ => True

instance (engine : PanelEngine) [∀ offers n v, Decidable (engine.hands offers n v)]
    [∀ offers v, Decidable (engine.returns offers v)] (s : Panel) : ∀ e, Decidable (s.Allows engine e)
  | .hand n node values => inferInstanceAs (Decidable (∀ a ∈ s.attempts[n]?, engine.hands (s.offers (a.thread n)) node values))
  | .finish n values => inferInstanceAs (Decidable (∀ a ∈ s.attempts[n]?, engine.returns (s.offers (a.thread n)) values))
  | .get_stored_draft .. | .aget_state .. | .adelete_thread _ | .ainvoke _ | .run .. | .insert .. | .fetch _ | .stop _
  | .delete _ => .isTrue trivial

end Runs

end AgenticKb.ReviewPanel

import AgenticKb.KbAgent.FileTools

open AgenticKb.Lib AgenticKb.Graphify AgenticKb.ContextBroker

namespace AgenticKb.KbAgent

/-! The KB-first agent: a model, a loop and its tools, with a budget for the knowledge base. -/

/-- A tool as the model is told of it. -/
structure Tool where
  name : String
  description : String
  properties : List String
  required : List String
deriving DecidableEq, Repr

def FILE_TOOLS : List Tool :=
  [{ name := "read_file"
     description := "Read a file (repo-relative path). For code you get a SKELETON — signatures, types, " ++
      "and structure with bodies elided — which is enough to orient and write code that " ++
      "fits. Call read_full only for the exact body of something you will edit or quote."
     properties := ["path"], required := ["path"] },
   { name := "read_full"
     description := "Read the EXACT, full text of a file (no skeleton). Use for the 1-2 files/bodies you " ++
      "actually edit or must quote precisely."
     properties := ["path"], required := ["path"] },
   { name := "list_files"
     description := "List entries in a repo-relative directory."
     properties := ["directory"], required := [] },
   { name := "edit_file"
     description := "Replace old_str with new_str in a file (old_str must match exactly once). To ADD code " ++
      "to an EXISTING file, set old_str to a unique nearby line and repeat that line in " ++
      "new_str. Empty old_str ONLY creates a brand-new file; it will NOT overwrite an " ++
      "existing one (that would wipe the file)."
     properties := ["path", "old_str", "new_str"], required := ["path", "old_str", "new_str"] },
   { name := "run_tests"
     description := "Run `pytest <path> -q` and return the output tail."
     properties := ["path"], required := ["path"] },
   { name := "lint"
     description := "Run the repo linter (ruff, auto-fix) on a file you created or edited. Auto-fixable " ++
      "issues are fixed; anything left is reported and you MUST edit_file to fix it. Always " ++
      "lint code you wrote before finishing."
     properties := ["path"], required := ["path"] }]

def KB_TOOL : Tool :=
  { name := "kb_search"
    description := "Search the knowledge base (code + docs + tickets) for the right files/answers. " ++
      "Prefer this FIRST. Budgeted — a limited number of calls per task."
    properties := ["query"], required := ["query"] }

/-- Each tool that is offered has its function, with the parameters that the model is told of. -/
theorem file_tools_dispatched : ∀ tool ∈ FILE_TOOLS, ∃ fn ∈ tool_functions.get? tool.name,
    fn.params.map (·.1) = tool.properties ∧ (fn.params.filter (·.2.isNone)).map (·.1) = tool.required := by
  decide

/-- A message of the conversation. -/
inductive Message where
  | system (content : String)
  | user (content : String)
  | assistant (text : String) (tool_uses : List ToolUse)
  /-- One tool's output, in an OpenAI conversation. -/
  | tool (tool_call_id content : String)
  /-- All outputs of a turn, in an Anthropic conversation. -/
  | tool_results (results : List (String × String))
deriving DecidableEq, Repr

/-- A tool call of a chat completion; the arguments are JSON text. -/
structure ToolCall where
  id : String
  name : String
  arguments : Option String
deriving DecidableEq, Repr

structure ChatMessage where
  content : Option String
  tool_calls : Option (List ToolCall)
deriving DecidableEq, Repr

/-- A block of an Anthropic message. -/
inductive Block where
  | text (text : String)
  | tool_use (id name : String) (input : Dict String Arg)
  | other
deriving DecidableEq, Repr

structure ModelError extends Exc where
  status_code : Option Nat
deriving DecidableEq, Repr

/-- What a run does that is seen from outside: a request to the provider, or a search of the knowledge base with its
outcome. -/
inductive Event where
  | request (tools : List Tool) (messages : List Message)
  | search (outcome : Except Exc String)

/-- What a run meets. The provider and the database may answer by all that was asked of them before. -/
structure World extends Shell where
  provider : String
  SEARCH_BUDGET : Int
  KB_TOKEN_BUDGET : Int
  MAX_STEPS : Nat
  SYSTEM_PROMPT : String
  BASELINE_PROMPT : String
  platform : Platform
  backend : KeywordBackend
  completions : List Event → Except ModelError (ChatMessage × Nat × Nat)
  create : List Event → Except ModelError (List Block × Nat × Nat)
  /-- `json.loads`: the object, or another value; or the text of a `JSONDecodeError`. -/
  json_loads : String → Except String (Option (Dict String Arg))
  database : List Event → Except Exc Database

section Search

variable (world : World)

/-- The words of a query, of letters and digits, two characters at least. -/
def tokens (u : Unicode) (query : String) : List String :=
  let raw := String.ofList ((u.lower query).toList.map fun c => if (u.is_word c && c != '_') || u.is_space c then c else ' ')
  (((runs (fun c => !u.is_space c) raw).filter fun t => decide (1 < t.length)).eraseDups).take 12

def TOP : Nat := 6

/-- The rows of `_search_sql`: members of the build with a live source that some token hits, the best first. -/
def search_rows (db : Database) (build_seq : Nat) (tokens : List String) : List (KnowledgeArtifact × SourceItem) :=
  let pattern (token : String) : List Char := '%' :: (token.toList ++ ['%'])
  let hits (token : String) (text : Option String) : Bool := ilike world.backend (pattern token) text
  let score (a : KnowledgeArtifact) : Rat := (tokens.map fun token =>
    (if hits token a.title then (4 : Rat) else 0) + (if hits token a.search_text then 3 / 2 else 0) +
      (if hits token (a.body_text.map world.platform.body_string) then 1 else 0)).sum
  let matching := (member_artifacts db build_seq).filter fun entry => !entry.2.is_deleted &&
    tokens.any fun token => hits token entry.1.title || hits token entry.1.search_text ||
      hits token (entry.1.body_text.map world.platform.body_string)
  (sorted (fun a b => score_order (a.1, score a.1) (b.1, score b.1)) matching).take TOP

/-- The text that the words of a query are taken from; a lone surrogate is no letter, digit or space. -/
def query_text : Arg → Option String
  | .str query => some query
  | .surrogates codes =>
    some (String.ofList (codes.map fun code => if 0xd800 ≤ code ∧ code ≤ 0xdfff then ' ' else Char.ofNat code))
  | .other _ => none

/-- Ranked keyword search over the active KB: a compact, citable result list. -/
def kb_search (db : Except Exc Database) (build_seq : Nat) (query : Arg) : Except Exc String :=
  match query_text query with
  | none => .error (world.type_error "kb_search")
  | some text =>
    let tokens := tokens world.unicode text
    if tokens.isEmpty then .ok "No searchable terms in the query."
    else db.map fun db =>
      let rows := search_rows world db build_seq tokens
      if rows.isEmpty then
        "KB search for " ++ world.repr query ++ ": no results. Read files directly to answer."
      else
        join "\n" (("KB search for " ++ world.repr query ++ " — top " ++ toString rows.length ++ " (cite source_uri):") ::
          rows.map fun (a, s) =>
            let body := (a.body_text.map world.platform.body_string).getD ""
            let snippet := take_chars (join " " (runs (fun c => !world.unicode.is_space c) body)) 200
            "- [" ++ s.source_uri ++ "] " ++ nonempty_or a.title a.artifact_type.text ++ " (" ++ a.artifact_type.text ++
              "): " ++ snippet)

end Search

/-- Where a run is. -/
structure Session where
  disk : Disk
  stats : Stats := {}
  messages : List Message
  searches_left : Int
  kb_tokens_left : Int
  in_tok : Nat := 0
  out_tok : Nat := 0
  steps : Nat := 0
  kb_calls : Nat := 0
  file_reads : Nat := 0
  log : List Event := []

/-- `kb_search` is offered and honored only while both caps remain. -/
def kb_budget_open (searches_left kb_tokens_left : Int) : Bool := decide (0 < searches_left) && decide (0 < kb_tokens_left)

/-- A reply of the model, whatever the provider. -/
structure ModelStep where
  text : String
  tool_uses : List ToolUse
  in_tokens : Nat
  out_tokens : Nat
deriving DecidableEq, Repr

section Model

variable (world : World)

/-- Groq, OpenAI, or another endpoint of its kind. -/
def is_openai (provider : String) : Bool := ["groq", "openai", "openai_compatible"].contains provider

/-- The tool calls of a chat completion, their arguments read. -/
def chat_tool_uses (message : ChatMessage) : Except ModelError (List ToolUse) :=
  (message.tool_calls.getD []).mapM fun tc =>
    match world.json_loads (if tc.arguments.getD "" = "" then "\x7b\x7d" else tc.arguments.getD "") with
    | .ok args => .ok { id := tc.id, name := tc.name, args }
    | .error text => .error { type_name := "JSONDecodeError", text, status_code := none }

/-- One provider call, no retry. -/
def raw_model_step (s : Session) (tools : List Tool) : Session × Except ModelError ModelStep :=
  let s := { s with log := s.log ++ [.request tools s.messages] }
  if is_openai world.provider then
    (s, do
      let (message, in_tokens, out_tokens) ← world.completions s.log
      return { text := message.content.getD "", tool_uses := ← chat_tool_uses world message, in_tokens, out_tokens })
  else
    (s, do
      let (content, in_tokens, out_tokens) ← world.create s.log
      let texts := content.filterMap fun block => match block with
        | .text text => some text
        | _ => none
      let tool_uses := content.filterMap fun block => match block with
        | .tool_use id name input => some { id, name, args := some input }
        | _ => none
      return { text := join "" texts, tool_uses, in_tokens, out_tokens })

def retry_nudge (tools : List Tool) (error : ModelError) : String :=
  let tool_names := join ", " (tools.map (·.name))
  "your last tool call failed validation: " ++ error.text ++ "; the available tools are: " ++
    (if tool_names = "" then "(none offered)" else tool_names) ++ "; retry with a valid call"

/-- One model call, and once more where the provider rejects it with a 400. -/
def model_step (s : Session) (tools : List Tool) : Session × Except ModelError ModelStep :=
  match raw_model_step world s tools with
  | (s, .ok step) => (s, .ok step)
  | (s, .error exc) =>
    if exc.status_code ≠ some 400 then (s, .error exc)
    else raw_model_step world { s with messages := s.messages ++ [.user (retry_nudge tools exc)] } tools

/-- Native messages carrying tool outputs. -/
def tool_result_messages (provider : String) (pairs : List (ToolUse × String)) : List Message :=
  if is_openai provider then pairs.map fun (tu, out) => .tool tu.id out
  else [.tool_results (pairs.map fun (tu, out) => (tu.id, out))]

end Model

section Loop

variable (world : World) (build_seq : Nat)

def BUDGET_SPENT : String := "KB budget spent — work with what you have, or read the specific " ++
  "files you still need."

def LAST_SEARCH : String := "\n\n(KB budget spent — read the specific files you still need.)"

/-- What the model is told of an exception. -/
def Exc.report (exc : Exc) : String := "error: " ++ exc.type_name ++ ": " ++ exc.text

/-- What a search of the knowledge base comes to. -/
def search_outcome (s : Session) (tu : ToolUse) : Except Exc String :=
  match tu.args with
  | none => .error (world.type_error "get")
  | some args => kb_search world (world.database s.log) build_seq ((args.get? "query").getD (.str ""))

/-- A search is charged before it is made; what it returns, after. -/
def charge_search (s : Session) (outcome : Except Exc String) : Session × String :=
  let s := { s with
    searches_left := s.searches_left - 1, kb_calls := s.kb_calls + 1, log := s.log ++ [.search outcome] }
  match outcome with
  | .error exc => (s, exc.report)
  | .ok out =>
    let s := { s with kb_tokens_left := s.kb_tokens_left - (Graphify.estimate_tokens out : Int) }
    (s, if s.searches_left ≤ 0 ∨ s.kb_tokens_left ≤ 0 then out ++ LAST_SEARCH else out)

/-- One tool call. -/
def use_tool (s : Session) (tu : ToolUse) : Session × String :=
  if tu.name = "kb_search" then
    if !kb_budget_open s.searches_left s.kb_tokens_left then (s, BUDGET_SPENT)
    else charge_search s (search_outcome world build_seq s tu)
  else
    let file_reads := if ["read_file", "read_full", "list_files"].contains tu.name then s.file_reads + 1 else s.file_reads
    let (disk, stats, result) := call_tool world.toShell s.disk s.stats tu
    ({ s with disk, stats, file_reads }, match result with
      | .ok out => out
      | .error exc => exc.report)

/-- The tool calls of a turn, each with what it returns. -/
def use_tools (s : Session) (tool_uses : List ToolUse) : Session × List (ToolUse × String) :=
  tool_uses.foldl (fun (done : Session × List (ToolUse × String)) tu =>
    let (s, out) := use_tool world build_seq done.1 tu
    (s, done.2 ++ [(tu, out)])) (s, [])

inductive Ending where
  | model_error (error : ModelError)
  | answered
  | step_cap
deriving DecidableEq, Repr

/-- `kb_search` is among the tools only while both caps remain. -/
def offered_tools (s : Session) : List Tool :=
  FILE_TOOLS ++ if kb_budget_open s.searches_left s.kb_tokens_left then [KB_TOOL] else []

/-- A reply is counted. -/
def count_step (s : Session) (step : ModelStep) : Session :=
  { s with steps := s.steps + 1, in_tok := s.in_tok + step.in_tokens, out_tok := s.out_tok + step.out_tokens }

/-- A reply with tool calls goes into the conversation, and their outputs after it. -/
def answer_tools (s : Session) (step : ModelStep) : Session :=
  let s := { s with messages := s.messages ++ [.assistant step.text step.tool_uses] }
  let (s, pairs) := use_tools world build_seq s step.tool_uses
  { s with messages := s.messages ++ tool_result_messages world.provider pairs }

/-- One pass of the loop, and how it ends the run if it does. -/
def turn (s : Session) : Session × Option Ending :=
  match model_step world s (offered_tools s) with
  | (s, .error exc) => (s, some (.model_error exc))
  | (s, .ok step) =>
    let s := count_step s step
    if step.tool_uses.isEmpty then (s, some .answered) else (answer_tools world build_seq s step, none)

def turns : Nat → Session → Session × Ending
  | 0, s => (s, .step_cap)
  | n + 1, s =>
    match turn world build_seq s with
    | (s, some ending) => (s, ending)
    | (s, none) => turns n s

end Loop

/-- The conversation before the model's first word. -/
def opening (world : World) (use_kb : Bool) (task : String) : List Message :=
  let system := if use_kb then world.SYSTEM_PROMPT else world.BASELINE_PROMPT
  if is_openai world.provider then [.system system, .user task] else [.user task]

/-- A session before its first step. -/
def start (world : World) (use_kb : Bool) (task : String) (disk : Disk) : Session where
  disk := disk
  messages := opening world use_kb task
  searches_left := if use_kb then world.SEARCH_BUDGET else 0
  kb_tokens_left := if use_kb then world.KB_TOKEN_BUDGET else 0

/-- A run over the active KB; without one there is none. -/
def run_task (world : World) (use_kb : Bool) (task : String) (disk : Disk) : Except Exc (Option (Session × Ending)) :=
  (world.database []).map fun db =>
    (fetch_active_version db).map fun active =>
      turns world active.build_seq world.MAX_STEPS (start world use_kb task disk)

end AgenticKb.KbAgent

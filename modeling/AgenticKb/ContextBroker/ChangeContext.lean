import Mathlib.Algebra.GroupWithZero.Nat
import Mathlib.Algebra.Ring.Rat
import AgenticKb.ContextBroker.TaskContext

open AgenticKb.Lib

namespace AgenticKb.ContextBroker

/-- One selected file, with why it was selected. -/
structure FileRef where
  path : String
  reason : String
  confidence : Rat
  est_tokens : Nat
  path_ne : ¬path = ""
deriving DecidableEq, Repr

structure ChangeContextRequest where
  task : String
  target_hint : Option String := none
  budget_tokens : Nat := 25000
  run_id : Option String := none
deriving DecidableEq, Repr

structure ChangeContextResponse where
  target_files : List FileRef := []
  test_files : List FileRef := []
  dependency_files : List FileRef := []
  relevant_symbols : List String := []
  notes : List String := []
deriving DecidableEq, Repr

/-- The broker's services, with the order in which a set of texts iterates. -/
structure ChangeDeps extends BrokerDeps where
  set_order : List String → List String
  set_order_perm : ∀ texts, (set_order texts).Perm texts.dedup

def CHANGE_PACK_TOOL : String := "context.create_change_pack"
def MAX_DEPENDENCY_FILES : Nat := 2
def MAX_TEST_FILES : Nat := 3
def CHANGE_SEARCH_TOP : Nat := 12
def TEST_SEARCH_TOP : Nat := 8

/-- Imported names whose defining file is contract-critical to a change. -/
def CONTRACT_SUFFIXES : List String :=
  ["Error", "Exception", "Client", "Response", "Request", "Config", "Protocol", "Backend", "Base", "Spec"]

def UBIQUITOUS_UTIL_STEMS : List String :=
  ["structured_logging", "logging", "logger", "log", "telemetry", "tracing", "metrics"]

def LEXICAL_NOTE : String := "target resolved by lexical fallback (no exact symbol/file hint matched)"
def CONVENTION_NOTE : String := "test file proposed by naming convention — the runtime must verify it exists"
def CONVENTION_REASON : String := "naming convention (runtime verifies existence)"

/-- The validated reference; the schema refuses an empty path. -/
def file_ref (path reason : String) (confidence : Rat) (est_tokens : Nat) : Option FileRef :=
  if h : path ≠ "" then some { path, reason, confidence, est_tokens, path_ne := h } else none

section Texts

/-- `s.split(sep)` for one character. -/
def split (sep : Char) (s : String) : List String := (s.toList.splitOn sep).map String.ofList

/-- `s.removesuffix(suf)`. -/
def removesuffix (s suf : String) : String :=
  if endswith s suf then String.ofList (s.toList.take (s.length - suf.length)) else s

/-- The first of equal texts stays. -/
def unique (texts : List String) : List String :=
  texts.foldl (fun out text => if out.contains text then out else out ++ [text]) []

/-- `_CAPWORDS`: the words of ASCII letters and digits that begin with a capital and go on. -/
def capwords (u : Unicode) (text : String) : List String :=
  (runs u.is_word text).filter fun word =>
    word.toList.all Char.isAlphanum && word.toList.head?.any Char.isUpper && decide (2 ≤ word.length)

/-- `_PYFILE` at one position: the longest match between word boundaries. -/
def py_file (u : Unicode) (prev : Option Char) (text : List Char) : Option (List Char × Nat) :=
  let is_word (c : Option Char) := c.any u.is_word
  if is_word prev == is_word text.head? then none
  else
    let run := text.takeWhile fun c => c.isAlphanum || c == '_' || c == '.' || c == '/' || c == '-'
    let fits (n : Nat) := decide (4 ≤ n) && (run.take n).drop (n - 3) == ['.', 'p', 'y'] && !is_word (text.drop n).head?
    ((List.range (run.length + 1)).reverse.find? fits).map fun n => (run.take n, n)

def file_names (u : Unicode) (text : String) : List String :=
  (finditer (py_file u) 0 none text.toList).map fun found => basename found.1

def is_test_path (path : String) : Bool :=
  let base := basename path
  contains path "/test" || startswith base "test_" || endswith base "_test.py"

/-- The first `services/<name>/` among the segments. -/
def service_of : List String → Option String
  | segment :: name :: rest =>
    if segment == "services" && name != "" && !rest.isEmpty then some ("services/" ++ name) else service_of (name :: rest)
  | _ => none

/-- `_repo_scope`: the service a path belongs to, if it carries one. -/
def repo_scope (path : String) : Option String := service_of (split '/' path)

/-- `_same_repo`: only a different service is refused. -/
def same_repo (target_scope : Option String) (candidate_path : String) : Bool :=
  match target_scope, repo_scope candidate_path with
  | some target_scope, some candidate_scope => target_scope == candidate_scope
  | _, _ => true

/-- `_path_proximity`: the leading directories shared. -/
def path_proximity (target_path candidate_path : String) : Nat :=
  (((split '/' target_path).dropLast.zip (split '/' candidate_path).dropLast).takeWhile fun pair => pair.1 == pair.2).length

def file_of (row : ArtifactRow) : String := readable_path row.source_uri

/-- `_conventional_test_paths`: the runtime verifies which exist. -/
def conventional_test_paths (target_path : String) : List String :=
  let parts := split '/' target_path
  let test_base := "test_" ++ removesuffix (parts.getLastD "") ".py" ++ ".py"
  let mirrored :=
    if parts.contains "src" then
      let root := join "/" (parts.take (parts.idxOf "src"))
      let after_src := parts.drop (parts.idxOf "src" + 1)
      [root ++ "/tests/unit/" ++ test_base, root ++ "/tests/" ++ test_base] ++
        if 2 < after_src.length then
          [root ++ "/tests/unit/" ++ join "/" (after_src.drop 1).dropLast ++ "/" ++ test_base]
        else []
    else []
  unique (mirrored ++ [join "/" parts.dropLast ++ "/" ++ test_base])

def module_stem (path : String) : String := removesuffix (basename path) ".py"

/-- `_CONTRACT_RE`: `$` also stands before a last line break. -/
def contract_named (title : String) : Bool :=
  CONTRACT_SUFFIXES.any fun suf => endswith title suf || endswith title (suf ++ "\n")

/-- `_score_imported_file`: how contract-critical an imported file is, and its names that the target uses. -/
def score_imported_file (u : Unicode) (symbol_titles : List String) (target_body_lc query_lc path : String) :
    Rat × List String :=
  let named (title text : String) := u.lower title != "" && contains text (u.lower title)
  let points (title : String) : Rat :=
    (if named title query_lc then 2 / 5 else 0) + (if named title target_body_lc then 9 / 20 else 0) +
      if contract_named title then 1 / 4 else 0
  let penalty : Rat :=
    if UBIQUITOUS_UTIL_STEMS.contains (module_stem path) && !contains query_lc (module_stem path) then 1 / 2 else 0
  ((symbol_titles.map points).sum - penalty, unique (symbol_titles.filter fun title => named title target_body_lc))

end Texts

/-- The characters of a file's spans that are known. -/
def add_chars (by_file_chars : Dict String Nat) (rows : List ArtifactRow) : Dict String Nat :=
  rows.foldl (fun d row => d.set (file_of row) ((d.get? (file_of row)).getD 0 + (row.body_text.getD "").length)) by_file_chars

/-- `_est_tokens_for_file`: a file without spans counts for a small constant. -/
def est_tokens_for_file (path : String) (by_file_chars : Dict String Nat) : Nat :=
  let chars := (by_file_chars.get? path).getD 0
  if chars = 0 then 400 else (chars + CHARS_PER_TOKEN - 1) / CHARS_PER_TOKEN

/-- A dictionary of rows by their ids. -/
def by_artifact_id (rows : List ArtifactRow) : Dict Uuid ArtifactRow :=
  rows.foldl (fun d row => d.set row.artifact_id row) []

/-- What stage 2 gathers. -/
structure Targets where
  files : List FileRef := []
  symbol_ids : List Uuid := []
  paths : List String := []
  relevant_symbols : List String := []

/-- `_add_target`. -/
def Targets.add (by_file_chars : Dict String Nat) (reason : ArtifactRow → String) (confidence : Rat) (targets : Targets)
    (row : ArtifactRow) : Option Targets :=
  let path := file_of row
  let targets :=
    if row.artifact_type == .code_symbol then
      { targets with
        symbol_ids := targets.symbol_ids ++ [row.artifact_id]
        relevant_symbols := targets.relevant_symbols ++ row.title.toList.filter (· != "") }
    else targets
  if targets.paths.contains path || is_test_path path then some targets
  else (file_ref path (reason row) confidence (est_tokens_for_file path by_file_chars)).map fun file =>
    { targets with paths := targets.paths ++ [path], files := targets.files ++ [file] }

/-- What stage 3 gathers. -/
structure Tests where
  files : List FileRef := []
  paths : List String := []

/-- `_add_test`: a test under a different service than the target's is dropped. -/
def Tests.add (target_scope : Option String) (by_file_chars : Dict String Nat) (confidence : Rat) (tests : Tests)
    (path reason : String) : Option Tests :=
  if tests.paths.contains path || !same_repo target_scope path then some tests
  else (file_ref path reason confidence (est_tokens_for_file path by_file_chars)).map fun file =>
    { paths := tests.paths ++ [path], files := tests.files ++ [file] }

section Stages

variable (deps : ChangeDeps) (db : Database) (build_seq : Nat) (requester : Requester)

/-- The rows the requester may see among some ids. -/
def visible_among (ids : List Uuid) : List ArtifactRow :=
  filter_artifacts requester (fetch_artifacts deps.platform db ids build_seq)

section Search

variable (request : ChangeContextRequest)

def hint_text : String := request.task ++ " " ++ request.target_hint.getD ""

def change_query : String := strip deps.platform.unicode (hint_text request)

def change_scores : Dict Uuid Rat :=
  hit_scores (deps.search db (change_query deps request) build_seq CHANGE_SEARCH_TOP)

/-- The hits of the task that the requester may see. -/
def found_rows : List ArtifactRow :=
  visible_among deps db build_seq requester ((change_scores deps db build_seq request).map (·.1))

/-- Those that are code, best first. -/
def code_rows : List ArtifactRow :=
  let score (row : ArtifactRow) := ((change_scores deps db build_seq request).get? row.artifact_id).getD 0
  sorted (fun a b => decide (score b ≤ score a)) <|
    (found_rows deps db build_seq requester request).filter fun row => CODE_TYPES.contains row.artifact_type

end Search

/-- A row whose name, or whose file's name, the task says. -/
def exact_symbol (class_hints : List String) (row : ArtifactRow) : Bool :=
  let title := rstrip_parens (row.title.getD "")
  title != "" && class_hints.contains title

def exact_symbol_reason (row : ArtifactRow) : String :=
  "contains exact symbol " ++ rstrip_parens (row.title.getD "") ++ " matched from the task"

def file_name_reason (row : ArtifactRow) : String := "file name " ++ basename (file_of row) ++ " named in the task"

def LEXICAL_REASON : String := "top lexical match for the task"

section Targets

variable (text : String) (code : List ArtifactRow) (by_file_chars : Dict String Nat)

/-- By the symbols the task names. -/
def symbol_targets : Option Targets :=
  (code.filter (exact_symbol (capwords deps.platform.unicode text))).foldlM
    (Targets.add by_file_chars exact_symbol_reason (24 / 25)) {}

/-- Or else by the files it names. -/
def file_targets (targets : Targets) : Option Targets :=
  if targets.files.isEmpty then
    (code.filter fun row => (file_names deps.platform.unicode text).contains (basename (file_of row))).foldlM
      (Targets.add by_file_chars file_name_reason (17 / 20)) targets
  else some targets

/-- Or else the top match. -/
def lexical_target (targets : Targets) : Option (Targets × List String) :=
  match targets.files, code with
  | [], top :: _ =>
    (targets.add by_file_chars (fun _ => LEXICAL_REASON) (11 / 20) top).map fun targets => (targets, [LEXICAL_NOTE])
  | _, _ => some (targets, [])

/-- Stage 2. -/
def find_targets : Option (Targets × List String) := do
  let by_symbol ← symbol_targets deps text code by_file_chars
  let by_name ← file_targets deps text code by_file_chars by_symbol
  lexical_target code by_file_chars by_name

end Targets

section Neighbours

variable (code : List ArtifactRow) (targets : Targets)

def target_ids : List Uuid :=
  (code.filter fun row => targets.paths.contains (file_of row)).map (·.artifact_id) ++ targets.symbol_ids

def target_edges : List EdgeRow := fetch_edges_touching db (target_ids code targets) build_seq none

def neighbours : Dict Uuid ArtifactRow :=
  by_artifact_id <| visible_among deps db build_seq requester <|
    (target_edges db build_seq code targets).map fun e =>
      if (target_ids code targets).contains e.from_artifact_id then e.to_artifact_id else e.from_artifact_id

/-- The service that all target paths which carry one are in. -/
def Targets.scope (targets : Targets) : Option String :=
  match (targets.paths.filterMap repo_scope).dedup with
  | [scope] => some scope
  | _ => none

def primary_target_path : String := (deps.set_order targets.paths).headD ""

def target_stems : List String := deps.set_order ((deps.set_order targets.paths).map module_stem)

end Neighbours

section Tests

variable (found code : List ArtifactRow) (targets : Targets)

def tests_edge_reason (row : ArtifactRow) : String := "`tests` edge → a target symbol (" ++ row.title.getD "None" ++ ")"

def REFERENCE_REASON : String := "test file in the KB references the target symbol"
def LOCATED_REASON : String := "KB search located the target's test file"

/-- By the edges into a target symbol. -/
def edge_tests (by_file_chars : Dict String Nat) : Option Tests :=
  (target_edges db build_seq code targets).foldlM (fun tests e =>
    if e.edge_type == .tests && targets.symbol_ids.contains e.to_artifact_id then
      match (neighbours deps db build_seq requester code targets).get? e.from_artifact_id with
      | some row => tests.add targets.scope by_file_chars (9 / 10) (file_of row) (tests_edge_reason row)
      | none => some tests
    else some tests) {}

/-- By the hits that name a target symbol. -/
def naming_tests (by_file_chars : Dict String Nat) (tests : Tests) : Option Tests :=
  let lower := deps.platform.unicode.lower
  (found.filter fun row => is_test_path (file_of row) &&
      (targets.relevant_symbols.map lower).any fun symbol => contains (lower (row.body_text.getD "")) symbol).foldlM
    (fun tests row => tests.add targets.scope by_file_chars (4 / 5) (file_of row) REFERENCE_REASON) tests

/-- Or else by a search of their own; their spans are counted as they come. -/
def located_tests (by_file_chars : Dict String Nat) (tests : Tests) : Option (Dict String Nat × Tests) :=
  if tests.files.isEmpty then
    let test_query := "test " ++ join " " (targets.relevant_symbols.take 2 ++ target_stems deps targets)
    let test_hits := deps.search db test_query build_seq TEST_SEARCH_TOP
    ((visible_among deps db build_seq requester (test_hits.map (·.artifact_id))).filter fun row =>
        is_test_path (file_of row)).foldlM (fun state row =>
      let by_file_chars := add_chars state.1 [row]
      (state.2.add targets.scope by_file_chars (7 / 10) (file_of row) LOCATED_REASON).map fun tests => (by_file_chars, tests))
      (by_file_chars, tests)
  else some (by_file_chars, tests)

/-- Or else by the naming convention. -/
def conventional_tests (by_file_chars : Dict String Nat) (tests : Tests) : Option (Tests × List String) :=
  if tests.files.isEmpty then
    (((deps.set_order targets.paths).flatMap conventional_test_paths).foldlM
      (fun (tests : Tests) path => tests.add targets.scope by_file_chars (1 / 2) path CONVENTION_REASON) tests).map fun tests =>
        (tests, if tests.files.isEmpty then [] else [CONVENTION_NOTE])
  else some (tests, [])

/-- First by file name, then by the directories shared with the target, then by confidence. -/
def test_key (file : FileRef) : Nat ×ₗ Int ×ₗ Rat :=
  let named := (target_stems deps targets).any fun stem => contains (basename file.path) stem
  toLex (if named then 0 else 1,
    toLex (-(path_proximity (primary_target_path deps targets) file.path : Int), -file.confidence))

/-- Stage 3, before anything is proposed, with the spans counted on the way. -/
def find_tests (by_file_chars : Dict String Nat) : Option (Dict String Nat × Tests) := do
  let by_edge ← edge_tests deps db build_seq requester code targets by_file_chars
  let by_name ← naming_tests deps found targets by_file_chars by_edge
  located_tests deps db build_seq requester targets by_file_chars by_name

def rank_tests (files : List FileRef) : List FileRef :=
  (sorted (fun a b => decide (test_key deps targets a ≤ test_key deps targets b)) files).take MAX_TEST_FILES

end Tests

section Dependencies

variable (query : String) (code : List ArtifactRow) (targets : Targets)

/-- The files of the target symbols, and the target files themselves. -/
def target_file_ids : List Uuid :=
  ((target_edges db build_seq code targets).filter fun e =>
      e.edge_type == .defined_in && targets.symbol_ids.contains e.from_artifact_id).map (·.to_artifact_id) ++
    (code.filter fun row => row.artifact_type == .code_file && targets.paths.contains (file_of row)).map (·.artifact_id)

def imported_ids : List Uuid :=
  let files := target_file_ids db build_seq code targets
  ((fetch_edges_touching db files build_seq (some [.imports])).map fun e =>
      if files.contains e.from_artifact_id then e.to_artifact_id else e.from_artifact_id).filter fun id => !files.contains id

def definition_edges : List EdgeRow :=
  fetch_edges_touching db (imported_ids db build_seq code targets) build_seq (some [.defined_in])

/-- The symbols of the imported files that have a name, each beside its file. -/
def imported_symbols : List (Uuid × ArtifactRow) :=
  let edges := definition_edges db build_seq code targets
  let imported := imported_ids db build_seq code targets
  let file_by_sym : Dict Uuid Uuid := edges.foldl (fun d e => d.set e.from_artifact_id e.to_artifact_id) []
  let ids := (edges.filter fun e => imported.contains e.to_artifact_id).map (·.from_artifact_id)
  (fetch_artifacts deps.platform db ids build_seq).filterMap fun row =>
    if row.title.getD "" = "" then none else (file_by_sym.get? row.artifact_id).map fun file => (file, row)

/-- One imported file with its score, its nearness and the reason for it. -/
structure ScoredFile where
  score : Rat
  proximity : Nat
  path : String
  reason : String
deriving DecidableEq, Repr

/-- Why an imported file is taken: the names by which the target uses it. -/
def dependency_reason (name_hits : List String) : String :=
  "defines " ++ (if name_hits.isEmpty then "imported by the target" else join ", " name_hits) ++ " used by the target file"

/-- The score of an imported file, with its names that the target uses. -/
def imported_score (symbols : List (Uuid × ArtifactRow)) (file : Uuid × ArtifactRow) : Rat × List String :=
  let u := deps.platform.unicode
  let titles := (symbols.filter fun symbol => symbol.1 == file.1).map fun symbol => symbol.2.title.getD ""
  let target_body := join " " ((code.filter fun row => targets.symbol_ids.contains row.artifact_id).map fun row =>
    row.body_text.getD "")
  score_imported_file u titles (u.lower target_body) (u.lower query) (file_of file.2)

def scored_file (symbols : List (Uuid × ArtifactRow)) (file : Uuid × ArtifactRow) : Option ScoredFile :=
  let path := file_of file.2
  if targets.paths.contains path || is_test_path path || !same_repo targets.scope path then none
  else
    let (score, name_hits) := imported_score deps query code targets symbols file
    if score ≤ 0 then none
    else
      some
        { score, proximity := path_proximity (primary_target_path deps targets) path, path
          reason := dependency_reason name_hits }

/-- The imported files that the requester may see. -/
def imported_files : Dict Uuid ArtifactRow :=
  by_artifact_id (visible_among deps db build_seq requester (imported_ids db build_seq code targets))

/-- The imported files worth a place, best first. -/
def scored_files : List ScoredFile :=
  let key (file : ScoredFile) : Rat ×ₗ Int := toLex (-file.score, -(file.proximity : Int))
  sorted (fun a b => decide (key a ≤ key b)) <|
    (imported_files deps db build_seq requester code targets).filterMap (scored_file deps query code targets (imported_symbols deps db build_seq code targets))

/-- Stage 4: the imported files, ranked and capped. -/
def find_dependencies (by_file_chars : Dict String Nat) : Option (List FileRef) :=
  let by_file_chars := add_chars by_file_chars ((imported_symbols deps db build_seq code targets).map (·.2))
  ((scored_files deps db build_seq requester query code targets).take MAX_DEPENDENCY_FILES).mapM fun file =>
    file_ref file.path file.reason (min (19 / 20) (11 / 20 + file.score / 2)) (est_tokens_for_file file.path by_file_chars)

end Dependencies

/-- What the stages select: the tests that were found, and the test files of the answer, which may be proposed instead. -/
structure Selection where
  targets : Targets
  target_notes : List String
  tests : Tests
  test_files : List FileRef
  test_notes : List String
  dependency_files : List FileRef

def select_files (request : ChangeContextRequest) : Option Selection := do
  let found := found_rows deps db build_seq requester request
  let code := code_rows deps db build_seq requester request
  let found_chars := add_chars [] found
  let (targets, target_notes) ← find_targets deps (hint_text request) code found_chars
  let chars := add_chars found_chars ((neighbours deps db build_seq requester code targets).map (·.2))
  let (chars, tests) ← find_tests deps db build_seq requester found code targets chars
  let (proposed, test_notes) ← conventional_tests deps targets chars tests
  let dependency_files ← find_dependencies deps db build_seq requester (change_query deps request) code targets chars
  some { targets, target_notes, tests, test_files := rank_tests deps targets proposed.files, test_notes, dependency_files }

end Stages

def total_tokens (files : List FileRef) : Nat := (files.map (·.est_tokens)).sum

/-- The dependency files that still fit, one after the other, and what is then spent. -/
def keep_within (budget_tokens : Nat) (spent : Nat) (dependency_files : List FileRef) : List FileRef × Nat :=
  dependency_files.foldl (fun state file =>
    if budget_tokens < state.2 + file.est_tokens then state
    else (state.1 ++ [file], state.2 + file.est_tokens)) ([], spent)

/-- The target and test files always stay. -/
def Selection.essential (selection : Selection) : Nat := total_tokens (selection.targets.files ++ selection.test_files)

def Selection.kept (selection : Selection) (budget_tokens : Nat) : List FileRef :=
  (keep_within budget_tokens selection.essential selection.dependency_files).1

def trim_note (dropped budget_tokens : Nat) : String :=
  "dropped " ++ toString dropped ++ " dependency file(s) to stay within budget_tokens=" ++ toString budget_tokens

/-- `create_change_pack`: the response and its ledger row; `none` is a file the schema refuses. -/
def create_change_pack (deps : ChangeDeps) (db : Database) (request : ChangeContextRequest) (requester : Requester) :
    Option (ChangeContextResponse × Option RetrievalEventInsert) :=
  match fetch_active_version db with
  | none =>
    some ({ notes := [MSG_NO_ACTIVE_VERSION] }, none)
  | some active => do
    let selection ← select_files deps db active.build_seq requester request
    let kept := selection.kept request.budget_tokens
    let dropped := selection.dependency_files.length - kept.length
    let trim_notes := if kept.length < selection.dependency_files.length then [trim_note dropped request.budget_tokens] else []
    some
      ({ target_files := selection.targets.files
         test_files := selection.test_files
         dependency_files := kept
         relevant_symbols := unique selection.targets.relevant_symbols
         notes := selection.target_notes ++ selection.test_notes ++ trim_notes },
       some
        { run_id := nonempty_or request.run_id NO_RUN_SENTINEL
          agent_name := requester.subject
          tool_name := CHANGE_PACK_TOOL
          status := .approved
          kb_version := active.kb_version
          query_text := some (change_query deps request) })

end AgenticKb.ContextBroker

import AgenticKb.ContextBroker.KeywordSearch
import AgenticKb.Graphify.CodeSkeleton
import AgenticKb.Lib.Disk

open AgenticKb.Lib AgenticKb.Graphify

namespace AgenticKb.KbAgent

/-! The native tools of the KB-first agent: what it does to the files of its repo. -/

/-- An exception, as far as it is told to the model. -/
structure Exc where
  type_name : String
  text : String
deriving DecidableEq, Repr

/-- A JSON value in a tool call, as far as the tools look at it. -/
inductive Arg where
  | str (value : String)
  /-- A `str` with a lone surrogate, for which UTF-8 has no bytes: its code points. -/
  | surrogates (codes : List Nat)
  | other (truthy : Bool)
deriving DecidableEq, Repr

def Arg.truthy : Arg → Bool
  | .str value => value != ""
  | .surrogates _ => true
  | .other truthy => truthy

def code_points (text : String) : List Nat := text.toList.map Char.toNat

/-- A tool call of the model. Its arguments may be something else than an object. -/
structure ToolUse where
  id : String
  name : String
  args : Option (Dict String Arg)
deriving DecidableEq, Repr

/-- The most that is read of a file; the exact text of a file may be twice as long. -/
def READ_CHAR_CAP : Nat := 8000

def CODE_SUFFIXES : List String := [".py", ".pyi", ".js", ".ts", ".tsx", ".jsx", ".go", ".rs", ".java", ".cpp", ".c"]

/-- How many tokens skeletons have saved in a run. -/
structure Stats where
  compress_saved_tokens : Nat := 0
  skeletons : Nat := 0
deriving DecidableEq, Repr

/-- What the tools meet: the repo and the interpreter, the texts of errors, and the programs that are run. Links are
followed up to a limit. -/
structure Shell where
  unicode : Unicode
  repo_root : Place
  compress : Bool
  links : Nat
  /-- The Python parser. -/
  parse : String → Option (List FunctionDef)
  /-- A share of a total, in per cent and without decimals. -/
  percent : Nat → Nat → String
  repr : Arg → String
  /-- What the file system takes a path with lone surrogates for: they may stand for the bytes of a name. -/
  fsencode : List Nat → Except Exc String
  /-- The exception where such a text is to be written. -/
  encode_error : List Nat → Exc
  os_error : OsError → Place → String
  decode_error : Place → String
  loop_error : String → String
  null_error : String
  /-- What the interpreter says of a value of the wrong type, by function. -/
  type_error : String → Exc
  /-- `uv run pytest path -q` in the repo: the disk behind it, and what it prints. -/
  pytest : Disk → String → Disk × Except Exc (String × String)
  /-- `ruff check --fix target`. -/
  ruff : Disk → Place → Disk × Except Exc (String × String)

/-- `s[-n:]`. -/
def last_chars (s : String) (n : Nat) : String := String.ofList (s.toList.drop (s.length - n))

/-- Cap a file read, marking the cut so a truncated read is never mistaken for the whole file. -/
def truncate (body : String) (cap : Nat) : String :=
  if body.length ≤ cap then body
  else take_chars body cap ++ "\n# ...truncated at " ++ toString cap ++ " chars; file continues — read in ranges."

section Tools

variable (shell : Shell) (disk : Disk)

/-- A path as the function hands it on. -/
def fspath (function : String) : Arg → Except Exc String
  | .str path => .ok path
  | .surrogates codes => shell.fsencode codes
  | .other _ => .error (shell.type_error function)

/-- The resolved path, if it lies in the repo. -/
def safe (path : String) : Except Exc Place :=
  if path.toList.contains '\x00' then .error { type_name := "ValueError", text := shell.null_error }
  else
    match disk.realpath shell.links [] (PurePath.joinpath { root := "/", parts := shell.repo_root } path).parts with
    | none => .error { type_name := "RuntimeError", text := shell.loop_error path }
    | some target =>
      if shell.repo_root.isPrefixOf target then .ok target
      else .error { type_name := "ValueError", text := "path escapes REPO_ROOT: " ++ path }

/-- `path.read_text`, where an `OSError` is a text for the model. -/
def read_target (target : Place) : Except Exc (Except String String) :=
  match disk.read_text target with
  | .ok raw => .ok (.ok raw)
  | .error (.os error) => .ok (.error ("error: " ++ shell.os_error error target))
  | .error .decode => .error { type_name := "UnicodeDecodeError", text := shell.decode_error target }

/-- By default the skeleton of code, where it saves something; the text of anything else. -/
def read_body (stats : Stats) (path : String) (raw : String) : Stats × String :=
  let result := skeletonize shell.unicode shell.parse raw (path_name path)
  let saved := result.original_tokens - result.skeleton_tokens
  if shell.compress && CODE_SUFFIXES.contains (shell.unicode.lower (path_suffix path)) && decide (0 < saved) then
    ({ compress_saved_tokens := stats.compress_saved_tokens + saved, skeletons := stats.skeletons + 1 },
      "# SKELETON of " ++ path ++ " (" ++ shell.percent saved result.original_tokens ++
        "% smaller; call read_full for the exact body of anything you edit)\n" ++ result.text)
  else (stats, truncate raw READ_CHAR_CAP)

def read_file (stats : Stats) (path : Arg) : Stats × Except Exc String :=
  let read := do
    let path ← fspath shell "_safe" path
    return (path, ← read_target shell disk (← safe shell disk path))
  match read with
  | .error exc => (stats, .error exc)
  | .ok (_, .error text) => (stats, .ok text)
  | .ok (path, .ok raw) =>
    let (stats, text) := read_body shell stats path raw
    (stats, .ok text)

/-- The exact text of a file. -/
def read_full (path : Arg) : Except Exc String := do
  let target ← safe shell disk (← fspath shell "_safe" path)
  match ← read_target shell disk target with
  | .ok raw => return truncate raw (2 * READ_CHAR_CAP)
  | .error text => return text

/-- `p.is_dir()`, which follows links. -/
def is_dir (place : Place) (name : String) : Bool :=
  (disk.realpath shell.links place [name]).any fun target => disk.entry target == some .directory

/-- `base.iterdir()`, by name. -/
def list_files (directory : Arg) : Except Exc String := do
  let base ← safe shell disk (← fspath shell "_safe" directory)
  match disk.entry base with
  | some .directory =>
    let names := sorted str_le ((disk.names base).map fun name => if is_dir shell disk base name then name ++ "/" else name)
    return if names.isEmpty then "(empty)" else join "\n" names
  | some (.link _) => return "error: " ++ shell.os_error .link_loop base
  | some (.file _) | some .binary => return "error: " ++ shell.os_error .not_a_directory base
  | none => return "error: " ++ shell.os_error (if disk.blocked base then .not_a_directory else .not_found) base

/-- `target.write_text`. Opening the file empties it, before the text is encoded. -/
def write_text (target : Place) (text : Arg) : Disk × Except Exc Unit :=
  match text with
  | .str text => (disk.put target (.file text), .ok ())
  | .surrogates codes => (disk.put target (.file ""), .error (shell.encode_error codes))
  | .other _ => (disk, .error (shell.type_error "write_text"))

/-- `body.replace(old_str, new_str)`. -/
def replaced (old body : String) (new_str : Arg) : Except Exc Arg :=
  match new_str with
  | .str new => .ok (.str (String.ofList (replace old.toList new.toList body.toList)))
  | .surrogates codes => .ok (.surrogates (replace (code_points old) codes (code_points body)))
  | .other _ => .error (shell.type_error "replace")

def match_error (found : Nat) : String := "error: old_str must match exactly once (found " ++ toString found ++ ")."

/-- What `edit_file` does to a file of this text, which is empty where there is no file. -/
def edit_body (target : Place) (path body : String) (old_str new_str : Arg) : Disk × Except Exc String :=
  if !old_str.truthy then
    -- an empty `old_str` is create-only
    if body != "" then
      (disk, .ok ("error: file already exists and is non-empty — empty old_str will NOT overwrite " ++
        "it. To add code, pass a unique existing line as old_str and repeat it in new_str."))
    else
      let (disk, written) := write_text shell (disk.make_parents target) target new_str
      (disk, written.map fun _ => "created " ++ path)
  else
    match old_str with
    | .other _ => (disk, .error (shell.type_error "count"))
    | .surrogates _ => (disk, .ok (match_error 0))
    | .str old =>
      let found := count old.toList body.toList
      if found ≠ 1 then (disk, .ok (match_error found))
      else
        match replaced shell old body new_str with
        | .error exc => (disk, .error exc)
        | .ok text =>
          let (disk, written) := write_text shell disk target text
          (disk, written.map fun _ => "edited " ++ path)

/-- Replace `old_str`, which must match exactly once, by `new_str`. -/
def edit_file (path old_str new_str : Arg) : Disk × Except Exc String :=
  let resolved := do
    let path ← fspath shell "_safe" path
    return (path, ← safe shell disk path)
  match resolved with
  | .error exc => (disk, .error exc)
  | .ok (path, target) =>
    match disk.read_text target with
    | .ok body => edit_body shell disk target path body old_str new_str
    | .error (.os .not_found) => edit_body shell disk target path "" old_str new_str
    | .error (.os error) => (disk, .ok ("error: " ++ shell.os_error error target))
    | .error .decode => (disk, .error { type_name := "UnicodeDecodeError", text := shell.decode_error target })

/-- The end of what the tests print. The path is handed on as it is. -/
def run_tests (path : Arg) : Disk × Except Exc String :=
  match fspath shell "run_tests" path with
  | .error exc => (disk, .error exc)
  | .ok path =>
    let (disk, printed) := shell.pytest disk path
    (disk, printed.map fun (stdout, stderr) => last_chars (strip shell.unicode (stdout ++ "\n" ++ stderr)) 2000)

/-- Lint a file, with its fixes, and report what is left. -/
def lint (path : Arg) : Disk × Except Exc String :=
  match fspath shell "_safe" path >>= safe shell disk with
  | .error exc => (disk, .error exc)
  | .ok target =>
    let (disk, printed) := shell.ruff disk target
    (disk, printed.map fun (stdout, stderr) =>
      let out := strip shell.unicode (stdout ++ stderr)
      if out != "" then last_chars out 2000 else "ruff: clean (no issues remaining)")

end Tools

section Calls

inductive FileTool where
  | read_file | read_full | list_files | edit_file | run_tests | lint
deriving DecidableEq, Repr

/-- The function behind a name. -/
def tool_functions : Dict String FileTool :=
  [("read_file", .read_file), ("read_full", .read_full), ("list_files", .list_files), ("edit_file", .edit_file),
    ("run_tests", .run_tests), ("lint", .lint)]

/-- The parameters of a function, each with its default. -/
def FileTool.params : FileTool → List (String × Option Arg)
  | .read_file | .read_full | .run_tests | .lint => [("path", none)]
  | .list_files => [("directory", some (.str "."))]
  | .edit_file => [("path", none), ("old_str", none), ("new_str", none)]

/-- The arguments of a call by keyword; `none` where one is missing, or is of no parameter. -/
def bind_args (params : List (String × Option Arg)) (args : Option (Dict String Arg)) : Option (List Arg) := do
  let args ← args
  guard (args.all fun arg => params.any fun param => param.1 == arg.1)
  params.mapM fun param => (args.get? param.1).or param.2

/-- A function at its arguments. -/
def FileTool.run (shell : Shell) (disk : Disk) (stats : Stats) : FileTool → List Arg → Disk × Stats × Except Exc String
  | .read_file, [path] =>
    let (stats, out) := KbAgent.read_file shell disk stats path
    (disk, stats, out)
  | .read_full, [path] => (disk, stats, KbAgent.read_full shell disk path)
  | .list_files, [directory] => (disk, stats, KbAgent.list_files shell disk directory)
  | .edit_file, [path, old_str, new_str] =>
    let (disk, out) := KbAgent.edit_file shell disk path old_str new_str
    (disk, stats, out)
  | .run_tests, [path] =>
    let (disk, out) := KbAgent.run_tests shell disk path
    (disk, stats, out)
  | .lint, [path] =>
    let (disk, out) := KbAgent.lint shell disk path
    (disk, stats, out)
  | _, _ => (disk, stats, .error (shell.type_error "call"))

/-- `fn(**args)` for the function of that name. -/
def call_tool (shell : Shell) (disk : Disk) (stats : Stats) (tu : ToolUse) : Disk × Stats × Except Exc String :=
  match tool_functions.get? tu.name with
  | none => (disk, stats, .error { type_name := "KeyError", text := shell.repr (.str tu.name) })
  | some tool =>
    match bind_args tool.params tu.args with
    | none => (disk, stats, .error (shell.type_error tu.name))
    | some args => tool.run shell disk stats args

end Calls

end AgenticKb.KbAgent

import AgenticKb.AgentRunner.Replies
import AgenticKb.Lib.Paths

open AgenticKb.Lib

namespace AgenticKb.AgentRunner

/-! The BUILD lane: what it reads of the workspace and what it writes into its worktree. -/

/-- Never read more files than this in full. -/
def MAX_FULL_FILES : Nat := 5

/-- Bounded repair attempts. -/
def MAX_FIX_ATTEMPTS : Nat := 2

/-- The paths of a change pack. -/
structure ChangePack where
  target_files : List String := []
  test_files : List String := []
  dependency_files : List String := []
deriving DecidableEq, Repr

/-- The workspace-verified file set. -/
structure ResolvedBuildFiles where
  target : List String
  test : List String
  dependency : List String
deriving DecidableEq, Repr

namespace ResolvedBuildFiles

variable (resolved : ResolvedBuildFiles)

def missing_target : Bool := resolved.target.isEmpty

def missing_test : Bool := resolved.test.isEmpty

/-- Targets, then the one primary test, then dependencies, capped. -/
def all_files : List String :=
  (resolved.target ++ resolved.test.take 1 ++ resolved.dependency).take MAX_FULL_FILES

/-- The blast radius for writes. -/
def writable : List String := (resolved.target ++ resolved.test.take 1).dedup

end ResolvedBuildFiles

inductive GateDecision where
  | approved | edited | rejected | aborted
deriving DecidableEq, Repr

/-- What the lane meets on its way: the workspace and its files, the worktree that git adds, the order in which a set is
iterated, the Python parser, and what git, the operator and the tests say of the files it has written. -/
structure Lane where
  unicode : Unicode
  workspace : PurePath
  files : FileTree
  worktree : PurePath
  worktree_added : Bool
  set_order : List String → List String
  set_order_perm : ∀ writable, (set_order writable).Perm writable
  /-- The message and the line of a syntax error. -/
  parse_error : String → Option (String × Nat)
  worktree_diff : Dict String String → String
  gate : String → GateDecision
  run_pytest : Nat → Dict String String → Bool

/-- What the lane does to files. -/
inductive Effect where
  | read (place : Place)
  | write (place : Place) (text : String)
deriving DecidableEq, Repr

section Resolving

variable (workspace : PurePath) (files : FileTree)

/-- Make a path workspace-relative: relative ones pass through, absolute ones outside are rejected. -/
def rel_to_workspace (path : String) : Option String :=
  let p := PurePath.parse path
  if !p.is_absolute then some path else (p.relative_to workspace).map PurePath.str

/-- The paths that exist, once each. -/
def existing (refs : List String) : List String :=
  refs.foldl (fun seen path =>
    match rel_to_workspace workspace path with
    | some rel =>
      if rel != "" && !seen.contains rel && files.is_file (workspace.joinpath rel) then seen ++ [rel] else seen
    | none => seen) []

/-- Keep only the paths that exist in the workspace. -/
def resolve_build_files (change_pack : ChangePack) : ResolvedBuildFiles where
  target := existing workspace files change_pack.target_files
  test := existing workspace files change_pack.test_files
  dependency := existing workspace files change_pack.dependency_files

/-- The reads behind the prompt. -/
def read_files (paths : List String) : List Effect := paths.map fun path => .read (workspace.joinpath path).place

end Resolving

section Blocks

variable (lane : Lane)

/-- Map block paths to workspace-relative form. -/
def normalise_block_paths (blocks : Dict String String) : Dict String String :=
  blocks.foldl (fun (out : Dict String String) block =>
    let p := if !(PurePath.parse block.1).is_absolute then
      strip_leading (strip_leading (strip_leading block.1 "a/") "b/") "./" else block.1
    match rel_to_workspace lane.workspace p with
    | some rel => out.set rel block.2
    | none => out) []

/-- The FILE protocol, or else fenced blocks attributed to writable files. -/
def extract (writable : List String) (text : String) : Dict String String :=
  let b := normalise_block_paths lane (parse_file_blocks lane.unicode text)
  if b.isEmpty then normalise_block_paths lane (parse_fenced_fallback text (lane.set_order writable)) else b

/-- The blocks that are accepted, the errors of the others and the files read on the way. -/
structure Validated where
  accepted : Dict String String := []
  errors : List String := []
  reads : List Effect := []

/-- The write contract for one block. -/
def validate_file_block (writable : List String) (validated : Validated) (block : String × String) : Validated :=
  let (path, content) := block
  let reject (message : String) (validated : Validated) : Validated :=
    { validated with errors := validated.errors ++ [path ++ ": " ++ message] }
  if !writable.contains path then reject "not in the writable set (dependency files are read-only)" validated
  else if searches (PLACEHOLDER_RE lane.unicode) content then
    reject "contains an elided-content placeholder, not the whole file" validated
  else
    match if endswith path ".py" then lane.parse_error content else none with
    | some (msg, lineno) => reject ("not valid Python (" ++ msg ++ " line " ++ toString lineno ++ ")") validated
    | none =>
      let target := lane.workspace.joinpath path
      match lane.files.read_text target with
      | some old =>
        let validated := { validated with reads := validated.reads ++ [.read target.place] }
        if old.length ≠ 0 ∧ 2 * content.length < old.length then
          reject ("shrank from " ++ toString old.length ++ " to " ++ toString content.length ++ " chars (suspicious)") validated
        else { validated with accepted := validated.accepted.set path content }
      | none => { validated with accepted := validated.accepted.set path content }

/-- Keep only valid, in-boundary file blocks. -/
def validate_file_blocks (writable : List String) (blocks : Dict String String) : Validated :=
  blocks.foldl (validate_file_block lane writable) {}

/-- Whole-file contents go into the worktree, newline-terminated. -/
def write_files (blocks : Dict String String) : List Effect :=
  blocks.map fun (path, content) =>
    .write (lane.worktree.joinpath path).place (if endswith content "\n" then content else content ++ "\n")

end Blocks

section Run

variable (lane : Lane) (replies : Nat → String)

/-- The attempts that are left: write, diff, gate once, test, and ask for a repair. `call` counts the model's replies. -/
def attempts (writable : List String) : (left call : Nat) → (gated : Bool) → (current : Dict String String) →
    List Effect × Nat
  | 0, _, _, _ => ([], 1)
  | left + 1, call, gated, current =>
    let written := write_files lane current
    let final_diff := lane.worktree_diff current
    if strip lane.unicode final_diff = "" then (written, 1)
    else
      let decision := if gated then .approved else lane.gate final_diff
      if decision = .aborted then (written, 0)
      else if decision = .rejected then (written, 1)
      else if lane.run_pytest (MAX_FIX_ATTEMPTS - left) current then (written, 0)
      else if left = 0 then (written, 1)
      else
        let nxt := validate_file_blocks lane writable (extract lane writable (replies call))
        if nxt.accepted.isEmpty then (written ++ nxt.reads, 1)
        else
          let (effects, code) := attempts writable left (call + 1) true nxt.accepted
          (written ++ nxt.reads ++ effects, code)

/-- The first blocks of the implementer, after one reformat retry at most, and the number of replies this took. -/
def implementer_blocks (writable : List String) : Dict String String × Nat :=
  let blocks := extract lane writable (replies 0)
  if blocks.isEmpty && !is_refusal lane.unicode (replies 0) then (extract lane writable (replies 1), 2) else (blocks, 1)

/-- What the lane does to files for a change pack and the model's replies, and its exit code. -/
def build (change_pack : ChangePack) : List Effect × Nat :=
  let resolved := resolve_build_files lane.workspace lane.files change_pack
  if resolved.missing_target || resolved.missing_test then ([], 1)
  else
    let reads := read_files lane.workspace resolved.all_files
    let writable := resolved.writable
    let (blocks, calls) := implementer_blocks lane replies writable
    if blocks.isEmpty then (reads, 1)
    else
      let validated := validate_file_blocks lane writable blocks
      if validated.accepted.isEmpty then (reads ++ validated.reads, 1)
      else if !lane.worktree_added then (reads ++ validated.reads, 1)
      else
        let (effects, code) := attempts lane replies writable (MAX_FIX_ATTEMPTS + 1) calls false validated.accepted
        (reads ++ validated.reads ++ effects, code)

end Run

end AgenticKb.AgentRunner

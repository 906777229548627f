import AgenticKb.Lib.Python

open AgenticKb.Lib

namespace AgenticKb

/-! The code skeleton: a file's structure without the bodies of its functions. `scripts/codeskeleton.py` holds the same
code. -/

/-- A statement, as far as `_collapse_intervals` reads it. -/
structure Stmt where
  lineno : Nat
  end_lineno : Option Nat
  is_docstring : Bool
deriving DecidableEq, Repr

/-- A function definition of the syntax tree. `signature_end` is the line of the colon; the parser reads it, but
reports it nowhere. -/
structure FunctionDef where
  lineno : Nat
  end_lineno : Option Nat
  body : List Stmt
  signature_end : Nat
deriving DecidableEq, Repr

/-- Python's `x or d`. -/
def or_else (x : Option Nat) (d : Nat) : Nat :=
  match x with
  | some n => if n = 0 then d else n
  | none => d

/-- The first line to collapse: the whole docstring is kept. -/
def collapse_start (first : Stmt) : Nat :=
  if first.is_docstring then or_else first.end_lineno first.lineno + 1 else first.lineno

def body_interval (node : FunctionDef) : Option (Nat × Nat) :=
  match node.body with
  | [] => none
  | first :: _ =>
    let start := collapse_start first
    let stop := or_else node.end_lineno start
    if start > node.lineno ∧ start ≤ stop then some (start, stop) else none

/-- `key=lambda iv: (iv[0], -iv[1])`. -/
def interval_order (a b : Nat × Nat) : Bool := decide (a.1 < b.1 ∨ (a.1 = b.1 ∧ b.2 ≤ a.2))

/-- One turn of the merge: absorb an interval that starts in the last one. -/
def absorb (merged : List (Nat × Nat)) (iv : Nat × Nat) : List (Nat × Nat) :=
  match merged.getLast? with
  | none => [iv]
  | some last =>
    if iv.1 ≤ last.2 then merged.dropLast ++ [(last.1, max last.2 iv.2)]
    else merged ++ [iv]

/-- The line ranges of function bodies to collapse; `tree` holds the function definitions in the order of
`ast.walk`. -/
def collapse_intervals (tree : List FunctionDef) : List (Nat × Nat) :=
  (sorted interval_order (tree.filterMap body_interval)).foldl absorb []

/-- The placeholder of `n` lines. -/
def elided (indent n : Nat) : String :=
  String.ofList (List.replicate indent ' ') ++ "... # " ++ toString n ++ (if n ≠ 1 then " lines" else " line") ++ " elided"

/-- `len(line) - len(line.lstrip(" "))`. -/
def indent_of (line : String) : Nat := (line.toList.takeWhile (· == ' ')).length

def skeleton_lines (lines : List String) (intervals : List (Nat × Nat)) : List String :=
  let starts : Dict Nat Nat := intervals.foldl (fun d iv => d.set iv.1 iv.2) []
  let dropped := intervals.flatMap fun iv => List.range' iv.1 (iv.2 + 1 - iv.1)
  (List.range' 1 lines.length).filterMap fun lineno =>
    let line := lines.getD (lineno - 1) ""
    match starts.get? lineno with
    | some stop => some (elided (indent_of line) (stop - lineno + 1))
    | none => if dropped.contains lineno then none else some line

/-- The AST-based skeleton; `none` if the source does not parse. -/
def skeletonize_python (parse : String → Option (List FunctionDef)) (source : String) : Option String :=
  (parse source).map fun tree =>
    let intervals := collapse_intervals tree
    if intervals.isEmpty then source else join "\n" (skeleton_lines (splitlines source) intervals)

/-- The alternatives of `_STRUCT_RE`, one list of words each. -/
def STRUCT_MARKERS : List (List String) :=
  [["async", "def"], ["def"], ["class"], ["@"], ["export", "default"], ["export"], ["import"], ["from"],
    ["public"], ["private"], ["protected"], ["internal"], ["static"], ["abstract"],
    ["function"], ["func"], ["fn"],
    ["interface"], ["type"], ["struct"], ["enum"], ["impl"], ["trait"],
    ["module"], ["package"], ["namespace"]]

/-- The text behind some words with white space between them. -/
def after_words (u : Unicode) : List String → List Char → Option (List Char)
  | [], text => some text
  | [word], text => if word.toList.isPrefixOf text then some (text.drop word.length) else none
  | word :: words, text =>
    let rest := text.drop word.length
    if word.toList.isPrefixOf text && rest.head?.any u.is_space then
      after_words u words (rest.dropWhile u.is_space)
    else none

/-- `\b` between two characters. -/
def word_boundary (u : Unicode) (before after : Option Char) : Bool := before.any u.is_word != after.any u.is_word

/-- `_STRUCT_RE.match(line)`. -/
def struct_match (u : Unicode) (line : String) : Bool :=
  let text := line.toList.dropWhile u.is_space
  STRUCT_MARKERS.any fun words =>
    match after_words u words text with
    | some rest => word_boundary u (words.getLast?.bind fun word => word.toList.getLast?) rest.head?
    | none => false

def is_closer (c : Char) : Bool := c == ')' || c == '\x7d' || c == ']'

/-- `_CLOSER_RE.match(line)`: closing brackets and perhaps a semicolon, alone on the line. -/
def closer_match (u : Unicode) (line : String) : Bool :=
  let text := line.toList.dropWhile u.is_space
  let rest := text.dropWhile is_closer
  let rest := if rest.head? = some ';' then rest.tail else rest
  text.head?.any is_closer && rest.all u.is_space

/-- A line the fallback keeps. -/
def keeps_line (u : Unicode) (line : String) : Bool :=
  let indent := (line.toList.takeWhile fun c => c == ' ' || c == '\t').length
  strip u line == "" || indent == 0 || struct_match u line || closer_match u line

/-- The placeholder of a run of dropped lines, if there is one. -/
def flush (out : List String) (run : Nat) : List String := if run ≠ 0 then out ++ [elided 4 run] else out

def scan_line (u : Unicode) (state : List String × Nat) (line : String) : List String × Nat :=
  let (out, run) := state
  if keeps_line u line then (flush out run ++ [line], 0) else (out, run + 1)

/-- The language-agnostic fallback. -/
def skeletonize_lines (u : Unicode) (source : String) : String :=
  let (out, run) := (splitlines source).foldl (scan_line u) ([], 0)
  join "\n" (flush out run)

namespace Graphify

def CHARS_PER_TOKEN : Nat := 4

def estimate_tokens (text : String) : Nat := (text.length + CHARS_PER_TOKEN - 1) / CHARS_PER_TOKEN

inductive SkeletonMethod where
  | python_ast | line_heuristic
deriving DecidableEq, Repr

structure SkeletonResult where
  text : String
  original_tokens : Nat
  skeleton_tokens : Nat
  method : SkeletonMethod
deriving DecidableEq, Repr

def PYTHON_SUFFIXES : List String := [".py", ".pyi"]

/-- `Path(path).name`. -/
def path_name (path : String) : String :=
  (((split_on '/' path).filter fun part => part != "" && part != ".").getLast?).getD ""

/-- `Path(path).suffix`: from the last dot of the name, unless the name begins or ends with it. -/
def path_suffix (path : String) : String :=
  match rpartition (path_name path) "." with
  | some (stem, suffix) => if stem = "" ∨ suffix = "" then "" else "." ++ suffix
  | none => ""

/-- AST path for Python, line heuristic otherwise. -/
def skeletonize (u : Unicode) (parse : String → Option (List FunctionDef)) (source filename : String) : SkeletonResult :=
  let suffix := u.lower (path_suffix filename)
  let python := PYTHON_SUFFIXES.contains suffix || (suffix == "" && contains source "def ")
  match if python then skeletonize_python parse source else none with
  | some text =>
    { text, original_tokens := estimate_tokens source, skeleton_tokens := estimate_tokens text, method := .python_ast }
  | none =>
    let text := skeletonize_lines u source
    { text, original_tokens := estimate_tokens source, skeleton_tokens := estimate_tokens text, method := .line_heuristic }

/-- Python files are skeletonized; every other language passes through unchanged. -/
def file_skeleton (u : Unicode) (parse : String → Option (List FunctionDef)) (source path : String) : Option SkeletonResult :=
  if PYTHON_SUFFIXES.contains (u.lower (path_suffix path)) then some (skeletonize u parse source path) else none

end Graphify

end AgenticKb

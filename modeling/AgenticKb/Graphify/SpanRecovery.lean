import AgenticKb.Graphify.CodeSkeleton

open AgenticKb.Lib

namespace AgenticKb.Graphify

/-! Exact source spans for the symbols of Python files. -/

/-- A decorator: the line of its expression, which the parser reports, and of its `@`, which it does not. -/
structure Decorator where
  at_line : Nat
  lineno : Nat
  /-- The name, the attribute or the called name or attribute. -/
  name : Option String
deriving DecidableEq, Repr

/-- A function or class definition of a syntax tree, with the names its walk collects. -/
structure Definition where
  name : String
  lineno : Nat
  end_lineno : Option Nat
  decorators : List Decorator := []
  /-- The parameters of a function: positional, positional-only and keyword-only ones. -/
  args : List String := []
  vararg : Option String := none
  kwarg : Option String := none
  docstring : Option String := none
  called_names : List String := []
  import_names : List String := []
deriving DecidableEq, Repr

/-- One symbol's exact inclusive line span and recovered body text. -/
structure SymbolSpan where
  name : String
  def_line : Nat
  span_start : Nat
  span_end : Nat
  body_text : String
  search_text : Option String := none
deriving DecidableEq, Repr

def is_lower_alnum (c : Char) : Bool := c.isLower || c.isDigit

/-- `_CAMEL_BOUNDARY` between two characters, the second of which `next` follows. -/
def camel_boundary (before c : Char) (next : Option Char) : Bool :=
  c.isUpper && (is_lower_alnum before || (before.isUpper && next.any Char.isLower))

/-- `_CAMEL_BOUNDARY.sub(" ", name)`. -/
def camel_spaced (before : Option Char) : List Char → List Char
  | [] => []
  | c :: text =>
    if before.any fun b => camel_boundary b c text.head? then ' ' :: c :: camel_spaced (some c) text
    else c :: camel_spaced (some c) text

/-- Split an identifier into lowercase words of two characters or more. -/
def split_identifier (u : Unicode) (name : String) : List String :=
  let spaced := String.ofList (camel_spaced none name.toList)
  (runs is_lower_alnum (u.lower spaced)).filter fun part => 2 ≤ part.length

def is_self (name : String) : Bool := name == "self" || name == "cls"

/-- The words of one symbol, sorted. -/
def build_search_text (u : Unicode) (node : Definition) : String :=
  let args := (node.args ++ node.vararg.toList ++ node.kwarg.toList).filter fun arg => !is_self arg
  let identifiers := node.name :: args ++ node.decorators.filterMap (·.name) ++ node.called_names ++ node.import_names
  let docstring_words := (runs u.is_word (u.lower (node.docstring.getD ""))).filter fun word => 2 ≤ word.length
  join " " (sorted str_le (identifiers.flatMap (split_identifier u) ++ docstring_words).dedup)

/-- Decorator-inclusive start, and end. -/
def node_span (node : Definition) : Nat × Nat :=
  (node.decorators.foldl (fun start decorator => min start decorator.lineno) node.lineno,
    node.end_lineno.getD node.lineno)

/-- `file_text.split("\n")` without the empty text behind the last line feed. -/
def file_lines (file_text : String) : List String :=
  let lines := split_on '\n' file_text
  if lines.getLast? = some "" then lines.dropLast else lines

/-- `"\n".join(lines[span_start - 1 : span_end])`, for lines counted from one. -/
def span_text (lines : List String) (span_start span_end : Nat) : String :=
  join "\n" ((lines.take span_end).drop (span_start - 1))

/-- The span of a definition, unless it runs past the text. -/
def symbol_span (u : Unicode) (lines : List String) (node : Definition) : Option SymbolSpan :=
  let (span_start, span_end) := node_span node
  if span_end > lines.length then none
  else
    let search_text := build_search_text u node
    some
      { name := node.name
        def_line := node.lineno
        span_start
        span_end
        body_text := span_text lines span_start span_end
        search_text := if search_text = "" then none else some search_text }

/-- Each definition's line to the spans that start on it; `parse` gives the definitions of a text in the order of
`ast.walk`, or `none` on a syntax error. -/
def recover_python_spans (u : Unicode) (parse : String → Option (List Definition)) (file_text : String) :
    Dict Nat (List SymbolSpan) :=
  match parse file_text with
  | none => []
  | some tree =>
    (tree.filterMap (symbol_span u (file_lines file_text))).foldl
      (fun by_def_line span => by_def_line.append_to span.def_line span) []

/-- Dispatch by file suffix. -/
def recover_spans (u : Unicode) (parse : String → Option (List Definition)) (file_text suffix : String) :
    Dict Nat (List SymbolSpan) :=
  if PYTHON_SUFFIXES.contains (u.lower suffix) then recover_python_spans u parse file_text else []

end AgenticKb.Graphify

import AgenticKb.Domain.Drafts
import AgenticKb.Graphify.SpanRecovery

open AgenticKb.Lib

namespace AgenticKb.Graphify

/-! Graphify's whole-tree extraction, mapped to our artifacts and edges. -/

/-- A node of the extracted graph; a missing id or file is the empty text. -/
structure GraphNode where
  id : String
  label : Option String
  source_file : String
  source_location : Option String
deriving DecidableEq, Repr

structure GraphEdge where
  relation : String
  source : String
  target : String
  source_location : Option String
deriving DecidableEq, Repr

/-- What the extractor returns: `links` are read where there are no `edges`. -/
structure Extraction where
  nodes : List GraphNode := []
  edges : Option (List GraphEdge) := none
  links : List GraphEdge := []
deriving DecidableEq, Repr

def IMPORTS_CONFIDENCE : Rat := 1
def DEFINED_IN_CONFIDENCE : Rat := 1
def CALLS_CONFIDENCE : Rat := 9 / 10
def SYMBOL_RELATION_CONFIDENCE : Rat := 8 / 10

def IMPORT_RELATIONS : List String := ["imports", "imports_from"]
def CALL_RELATIONS : List String := ["calls"]
def SYMBOL_RELATIONS : Dict String CodeEdgeType :=
  [("uses", .uses), ("references", .references), ("inherits", .inherits)]

/-- The digits of `int`, single underscores between them allowed. -/
def int_digits (value : Option Nat) : List Char → Option Nat
  | [] => value
  | '_' :: c :: text =>
    if value.isSome && c.isDigit then int_digits (some (value.getD 0 * 10 + (c.toNat - '0'.toNat))) text else none
  | c :: text => if c.isDigit then int_digits (some (value.getD 0 * 10 + (c.toNat - '0'.toNat))) text else none

/-- `int(text)`, where it is not negative: a negative number is the line of no definition. -/
def int_of (u : Unicode) (text : String) : Option Nat :=
  match (strip u text).toList with
  | '+' :: digits => int_digits none digits
  | '-' :: digits => (int_digits none digits).filter (· == 0)
  | digits => int_digits none digits

/-- Graphify's `source_location` ("L42") as a line number. -/
def line_of (u : Unicode) (source_location : Option String) : Option Nat :=
  match source_location with
  | some text => if startswith text "L" then int_of u (strip_leading text "L") else none
  | none => none

def strip_trailing (s suf : String) : String :=
  if endswith s suf then String.ofList (s.toList.take (s.length - suf.length)) else s

/-- Bare symbol name from a node label; `str(None)` stands for a missing one. -/
def label_name (u : Unicode) (label : Option String) : Option String :=
  let text := strip u (label.getD "None")
  let text := strip_trailing (strip_leading text ".") "()"
  if text = "" then none else some text

/-- Resolve a symbol node to its recovered span by start line, and by name where several start there. -/
def match_span (u : Unicode) (spans : Option (Dict Nat (List SymbolSpan))) (start_line : Option Nat)
    (label : Option String) : Option SymbolSpan :=
  match spans, start_line with
  | some spans, some start_line =>
    match spans.get? start_line with
    | some [candidate] => some candidate
    | some candidates => candidates.find? fun span => some span.name == label_name u label
    | none => none
  | _, _ => none

/-- What `map_extraction` takes beside the graph. -/
structure MapInputs where
  unicode : Unicode
  known_paths : Option (List String) := none
  spans_by_file : Option (Dict String (Dict Nat (List SymbolSpan))) := none
  skeletons_by_file : Option (Dict String String) := none

section Nodes

variable (inputs : MapInputs)

/-- A node is ours only when its source file is one of those we extracted. -/
def in_tree (node : GraphNode) : Bool :=
  match inputs.known_paths with
  | some known_paths => known_paths.contains node.source_file
  | none => node.source_file != ""

def is_file_node (node : GraphNode) : Bool := node.label.getD "" == path_name node.source_file

/-- The id of the file node of each file. -/
def file_node_ids (nodes : List GraphNode) : Dict String String :=
  (nodes.filter fun node => in_tree inputs node && is_file_node node).foldl
    (fun file_node_id node => file_node_id.set node.source_file node.id) []

variable (file_node_id : Dict String String)

/-- The id of a symbol node without its file's prefix. -/
def symbol_name (node : GraphNode) : String :=
  let pre := (file_node_id.get? node.source_file).getD ""
  if pre ≠ "" ∧ startswith node.id (pre ++ "_") then strip_leading node.id (pre ++ "_") else node.id

def key_of_node (node : GraphNode) : String :=
  if is_file_node node then file_key node.source_file
  else symbol_key node.source_file (symbol_name file_node_id node)

def file_artifact (node : GraphNode) : CodeArtifactDraft :=
  { key := file_key node.source_file
    artifact_type := .code_file
    title := node.source_file
    search_text := inputs.skeletons_by_file.bind fun skeletons => skeletons.get? node.source_file }

/-- The recovered span of a symbol node, looked up in its own file. -/
def span_of_node (node : GraphNode) : Option SymbolSpan :=
  match_span inputs.unicode (inputs.spans_by_file.bind fun spans => spans.get? node.source_file)
    (line_of inputs.unicode node.source_location) node.label

def symbol_artifact (node : GraphNode) : CodeArtifactDraft :=
  let name := symbol_name file_node_id node
  match span_of_node inputs node with
  | some span =>
    { key := symbol_key node.source_file name
      artifact_type := .code_symbol
      title := node.label.getD name
      body_text := some span.body_text
      span_start := some span.span_start
      span_end := some span.span_end
      search_text := span.search_text }
  | none =>
    { key := symbol_key node.source_file name
      artifact_type := .code_symbol
      title := node.label.getD name
      span_start := line_of inputs.unicode node.source_location }

def artifact_of_node (node : GraphNode) : CodeArtifactDraft :=
  if is_file_node node then file_artifact inputs node else symbol_artifact inputs file_node_id node

/-- What the loop over the nodes builds. -/
structure MappedNodes where
  node_key : Dict String String := []
  node_is_file : Dict String String := []
  symbol_files : List (String × String) := []
  artifacts : List CodeArtifactDraft := []
deriving DecidableEq, Repr

def map_node (mapped : MappedNodes) (node : GraphNode) : MappedNodes :=
  if !in_tree inputs node then mapped
  else if is_file_node node then
    { mapped with
      node_key := mapped.node_key.set node.id (key_of_node file_node_id node)
      node_is_file := mapped.node_is_file.set node.id node.source_file
      artifacts := mapped.artifacts ++ [artifact_of_node inputs file_node_id node] }
  else
    let key := key_of_node file_node_id node
    { mapped with
      node_key := mapped.node_key.set node.id key
      symbol_files :=
        if (file_node_id.get? node.source_file).isSome then mapped.symbol_files ++ [(key, node.source_file)]
        else mapped.symbol_files
      artifacts := mapped.artifacts ++ [artifact_of_node inputs file_node_id node] }

def map_nodes (nodes : List GraphNode) : MappedNodes := nodes.foldl (map_node inputs (file_node_ids inputs nodes)) {}

end Nodes

/-- `add`: no self-edge, and none whose ends and type are there; `seen` holds those of the drafts. -/
def add_draft (drafts : List CodeEdgeDraft) (draft : CodeEdgeDraft) : List CodeEdgeDraft :=
  if draft.from_key = draft.to_key then drafts
  else if drafts.any fun old => old.from_key == draft.from_key && old.to_key == draft.to_key && old.edge_type == draft.edge_type then
    drafts
  else drafts ++ [draft]

section Edges

variable (mapped : MappedNodes) (edges : List GraphEdge)

/-- Symbol to file. -/
def defined_in_edges : List CodeEdgeDraft :=
  mapped.symbol_files.map fun entry =>
    { from_key := entry.1, to_key := file_key entry.2, edge_type := .defined_in, confidence := DEFINED_IN_CONFIDENCE }

/-- File to file; a target that is no file of ours is external. -/
def import_edges : List CodeEdgeDraft :=
  (edges.filter fun edge => IMPORT_RELATIONS.contains edge.relation).filterMap fun edge => do
    let from_file ← mapped.node_is_file.get? edge.source
    let target_file ← mapped.node_is_file.get? edge.target
    some
      { from_key := file_key from_file, to_key := file_key target_file, edge_type := .imports
        confidence := IMPORTS_CONFIDENCE }

/-- Both ends are symbols of the tree. -/
def between_symbols (edge : GraphEdge) : Bool :=
  (mapped.node_key.get? edge.source).isSome && (mapped.node_key.get? edge.target).isSome &&
    (mapped.node_is_file.get? edge.source).isNone && (mapped.node_is_file.get? edge.target).isNone

def call_site (edge : GraphEdge) : String × Option String := (edge.source, edge.source_location)

/-- The calls between symbols, by call site. -/
def calls_by_site : Dict (String × Option String) (List GraphEdge) :=
  (edges.filter fun edge => CALL_RELATIONS.contains edge.relation && between_symbols mapped edge).foldl
    (fun by_site edge => by_site.append_to (call_site edge) edge) []

/-- Symbol to symbol, for the sites whose calls have one target. -/
def call_edges : List CodeEdgeDraft :=
  (calls_by_site mapped edges).filterMap fun entry =>
    match (entry.2.map (·.target)).dedup with
    | [target] => do
      let from_key ← mapped.node_key.get? entry.1.1
      let to_key ← mapped.node_key.get? target
      some { from_key, to_key, edge_type := .calls, confidence := CALLS_CONFIDENCE }
    | _ => none

/-- Symbol to symbol. -/
def relation_edges : List CodeEdgeDraft :=
  (edges.filter (between_symbols mapped)).filterMap fun edge => do
    let edge_type ← SYMBOL_RELATIONS.get? edge.relation
    let from_key ← mapped.node_key.get? edge.source
    let to_key ← mapped.node_key.get? edge.target
    some { from_key, to_key, edge_type, confidence := SYMBOL_RELATION_CONFIDENCE }

end Edges

/-- Normalize an extraction into our artifacts and edges. -/
def map_extraction (inputs : MapInputs) (data : Extraction) : GraphifyResult :=
  let edges := data.edges.getD data.links
  let mapped := map_nodes inputs data.nodes
  { artifacts := mapped.artifacts
    edges := (defined_in_edges mapped ++ import_edges mapped edges ++ call_edges mapped edges ++
      relation_edges mapped edges).foldl add_draft [] }

/-- What the tree pass takes from outside: the Unicode tables, the two views of Python's parser, and Graphify. -/
structure GraphifyTools where
  unicode : Unicode
  functions : String → Option (List FunctionDef)
  definitions : String → Option (List Definition)
  extract : List (String × String) → Extraction

/-- `Path(path).suffix or ".py"`. -/
def span_suffix (path : String) : String := if path_suffix path = "" then ".py" else path_suffix path

/-- What the tree pass hands to `map_extraction` beside the graph. -/
def tree_inputs (tools : GraphifyTools) (files : List (String × String)) : MapInputs where
  unicode := tools.unicode
  known_paths := some (files.map (·.1))
  spans_by_file := some <| files.foldl (fun spans file =>
    spans.set file.1 (recover_spans tools.unicode tools.definitions file.2 (span_suffix file.1))) []
  skeletons_by_file := some <| files.foldl (fun skeletons file =>
    skeletons.set_some file.1 ((file_skeleton tools.unicode tools.functions file.2 file.1).map (·.text))) []

/-- Whole-tree extraction over every `(path, text)` file. -/
def graphify_tree (tools : GraphifyTools) (files : List (String × String)) : GraphifyResult :=
  if files.isEmpty then {} else map_extraction (tree_inputs tools files) (tools.extract files)

end AgenticKb.Graphify

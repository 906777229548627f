import AgenticKb.Lib.Python
import AgenticKb.Lib.Regex

open AgenticKb.Lib

namespace AgenticKb.AgentRunner

/-! What the BUILD lane reads out of a model's reply. -/

section Scanning

/-- The matches of an expression from left to right, each with the place where it begins; `skip` counts the characters
of the last match that are still to be passed over. -/
def scan {β : Type*} (matcher : List Char → Option (β × Nat)) : Nat → Nat → List Char → List (Nat × β)
  | _, _, [] => []
  | start, skip + 1, _ :: cs => scan matcher (start + 1) skip cs
  | start, 0, c :: cs =>
    match matcher (c :: cs) with
    | some (groups, len) => (start, groups) :: scan matcher (start + 1) (len - 1) cs
    | none => scan matcher (start + 1) 0 cs

/-- What stands before a marker, and behind it. -/
def cut (marker : List Char) : List Char → Option (List Char × List Char)
  | [] => none
  | c :: cs =>
    if marker.isPrefixOf (c :: cs) then some ([], (c :: cs).drop marker.length)
    else (cut marker cs).map fun (before, after) => (c :: before, after)

/-- `rest`, if the text begins with `lead`. -/
def past (lead : List Char) (text : List Char) : Option (List Char) :=
  if lead.isPrefixOf text then some (text.drop lead.length) else none

/-- `(?P<body>.*?)\n?`: a line feed right before the marker is not of the body. -/
def body_of_match (body : List Char) : String :=
  String.ofList (if body.getLast? = some '\n' then body.dropLast else body)

end Scanning

section FileBlocks

variable (u : Unicode)

/-- Blanks up to their last line feed: what stands behind it. -/
def past_last_newline (text : List Char) : Option (List Char) :=
  let blanks := text.takeWhile u.is_space
  if blanks.contains '\n' then some ((blanks.reverse.takeWhile (· != '\n')).reverse ++ text.dropWhile u.is_space) else none

/-- `\s*>?\s*\n`. -/
def past_header (text : List Char) : Option (List Char) :=
  ((past ['>'] (text.dropWhile u.is_space)).bind (past_last_newline u)).or (past_last_newline u text)

/-- `_FILE_BLOCK_RE`: the path and the body. -/
def file_block (text : List Char) : Option ((String × String) × Nat) := do
  let spaced ← past "<<<FILE".toList text
  guard (spaced.head?.any u.is_space)
  let quoted ← past "path=\"".toList (spaced.dropWhile u.is_space)
  let path := quoted.takeWhile (· != '"')
  guard (path ≠ [])
  let header ← past ['"'] (quoted.dropWhile (· != '"'))
  let (body, rest) ← cut "<<<END_FILE>>>".toList (← past_header u header)
  return ((String.ofList path, body_of_match body), text.length - rest.length)

/-- Parse the FILE blocks of a reply: path to content. -/
def parse_file_blocks (raw : String) : Dict String String :=
  (scan (file_block u) 0 0 raw.toList).foldl (fun (out : Dict String String) found =>
    out.set (strip u found.2.1) found.2.2) []

end FileBlocks

section Fences

def is_info_char (c : Char) : Bool := c.isAlphanum || c == '_' || c == '+' || c == '-'

/-- `_FENCE_RE`: the body. -/
def fenced_block (text : List Char) : Option (String × Nat) := do
  let info ← past "```".toList text
  let (body, rest) ← cut "```".toList (← past ['\n'] (info.dropWhile is_info_char))
  return (body_of_match body, text.length - rest.length)

/-- The fenced blocks of a reply: where each begins, and its body. -/
def fences (raw : String) : List (Nat × String) := scan fenced_block 0 0 raw.toList

/-- The 240 characters before a place. -/
def before_fence (raw : String) (start : Nat) : String := String.ofList ((raw.toList.take start).drop (start - 240))

/-- `w.rsplit("/", 1)[-1]`. -/
def basename (path : String) : String := ((rpartition path "/").map (·.2)).getD path

/-- A text names a file by its path or its basename. -/
def names (text path : String) : Bool := contains text path || contains text (basename path)

/-- Fallback when the model emits natural fenced blocks instead of the FILE protocol. `writable` comes in the order in
which the set is iterated. -/
def parse_fenced_fallback (raw : String) (writable : List String) : Dict String String :=
  match fences raw, writable with
  | [fence], [path] => [(path, fence.2)]
  | found, _ =>
    found.foldl (fun (out : Dict String String) fence =>
      match writable.find? (names (before_fence raw fence.1)) with
      | some path => out.set path fence.2
      | none => out) []

example : parse_fenced_fallback "### a.py\n```python\nx = 1\n```\n**b.py**\n```\ny = 2\n```" ["b.py", "c.py"] =
    [("b.py", "y = 2")] := by
  decide +kernel

end Fences

section Refusals

variable (u : Unicode)

/-- A text in any letter case. -/
def any_case (text : String) : Regex Char := .concat (text.toList.map fun c => .one (u.same_letter c))

def exactly (text : String) : Regex Char := .concat (text.toList.map .literal)

def one_of (parts : List (Regex Char)) : Regex Char := parts.foldr .or .none

def optional (r : Regex Char) : Regex Char := .or r .empty

def up_to : Nat → Regex Char → Regex Char
  | 0, _ => .empty
  | n + 1, r => optional (.seq r (up_to n r))

def blanks : Regex Char := .star (.one u.is_space)

/-- `re.search`. -/
def searches (r : Regex Char) (text : String) : Bool :=
  (Regex.concat [.star (.one fun _ => true), r, .star (.one fun _ => true)]).accepts text.toList

/-- The alternatives of an expression in any letter case. -/
def any_case_of (texts : List String) : Regex Char := one_of (texts.map (any_case u))

def PLACEHOLDER_RE : Regex Char :=
  one_of [
    .concat [exactly "...", blanks u, any_case_of u ["existing", "rest of", "unchanged", "previous"]],
    .concat [any_case_of u ["rest", "remainder"], any_case u " of ", optional (any_case u "the "),
      any_case_of u ["file", "code", "method", "function"]],
    .concat [exactly "#", blanks u, exactly "...", blanks u, any_case_of u ["unchanged", "existing", "snip"]],
    any_case u "<unchanged>",
    .concat [any_case u "keep ", optional (any_case u "the "), any_case u "existing"]]

/-- What is asked for, from its first word on. -/
def asked_for : Regex Char := any_case_of u ["file", "contents", "source", "code of"]

/-- The words behind the second boundary of `_PASTE_REQUEST_RE` when they begin with a word. -/
def asked_by_word : Regex Char :=
  let kind := any_case_of u ["full", "entire", "complete", "whole"]
  let the := Regex.concat [any_case u "the", .one u.is_space, blanks u]
  one_of [.concat [the, optional kind, blanks u, asked_for u], .concat [kind, blanks u, asked_for u], asked_for u]

/-- And when they begin with a blank. -/
def asked_by_blank : Regex Char := .concat [.one u.is_space, blanks u, asked_for u]

/-- A character of the gap: no full stop and no line feed. -/
def gap (is_word : Bool) : Regex Char := .one fun c => u.is_word c == is_word && c != '.' && c != '\n'

/-- A word boundary is a change between word characters and others, so its two places are read off the first and the
last character of the gap between them. -/
def PASTE_REQUEST_RE : Regex Char :=
  .seq (any_case_of u ["paste", "provide", "share", "send", "show me", "give me", "need", "attach"]) <|
    .or (asked_by_blank u) <|
      .seq (gap u false) <|
        .or (asked_by_word u) <|
          .seq (up_to 38 (.one fun c => c != '.' && c != '\n')) <|
            .or (.seq (gap u false) (asked_by_word u)) (.seq (gap u true) (asked_by_blank u))

/-- `_CODE_MARKER_RE` for a whole text: code at the start of a line. -/
def CODE_MARKER_RE : Regex Char :=
  .concat [optional (.seq (.star (.one fun _ => true)) (exactly "\n")), blanks u,
    one_of [exactly "def ", exactly "class ", exactly "import ",
      .concat [exactly "from ", .one u.is_word, .star (.one u.is_word), exactly " import"], exactly "@pytest",
      exactly "async def "],
    .star (.one fun _ => true)]

/-- A request for files is a refusal only when the reply carries no code. -/
def is_refusal (raw : String) : Bool := searches (PASTE_REQUEST_RE u) raw && !(CODE_MARKER_RE u).accepts raw.toList

end Refusals

end AgenticKb.AgentRunner

import AgenticKb.Lib.Python
import AgenticKb.Lib.Regex

open AgenticKb.Lib

namespace AgenticKb

/-- An include or exclude pattern that the glob grammar cannot express. -/
inductive GlobError where
  | empty_pattern
  | leading_slash (pattern : String)
  | empty_segment (pattern : String)
  | inner_globstar (segment : String)
deriving DecidableEq, Repr

/-- The text of the error; `repr` is Python's of a string. -/
def GlobError.message (repr : String → String) : GlobError → String
  | empty_pattern => "empty glob pattern"
  | leading_slash pattern => "glob patterns are relative; no leading '/': " ++ repr pattern
  | empty_segment pattern => "empty path segment in glob: " ++ repr pattern
  | inner_globstar segment => "'**' must stand alone as a full path segment: " ++ repr segment

/-- `[^/]` -/
def not_slash : Regex Char := .other_than '/'

/-- `[^/]*`, `[^/]` or the escaped character. -/
def char_regex (c : Char) : Regex Char :=
  if c = '*' then .star not_slash
  else if c = '?' then not_slash
  else .literal c

def segment_regex (segment : String) : Except GlobError (Regex Char) :=
  if contains segment "**" then .error (.inner_globstar segment)
  else .ok (.concat (segment.toList.map char_regex))

/-- `(?:/[^/]+)*` -/
def slashed_segments : Regex Char := .star (.seq (.literal '/') (.plus not_slash))

/-- `(?:[^/]+/)*` -/
def segments_slashed : Regex Char := .star (.seq (.plus not_slash) (.literal '/'))

def collapse_segment (segments : List String) (segment : String) : List String :=
  if segment = "**" ∧ segments.getLast? = some "**" then segments else segments ++ [segment]

/-- Runs of `**` collapse to one. -/
def collapse_globstars (raw_segments : List String) : List String := raw_segments.foldl collapse_segment []

/-- The loop over the segments; `parts` and `need_separator` are its variables. -/
def glob_parts (pattern : String) (parts : List (Regex Char)) (need_separator : Bool) :
    List String → Except GlobError (List (Regex Char))
  | [] => .ok parts
  | segment :: rest =>
    let separated := if need_separator then parts ++ [.literal '/'] else parts
    if segment = "" then .error (.empty_segment pattern)
    else if segment = "**" then
      if rest.isEmpty then
        let last := if parts.isEmpty then .seq (.plus not_slash) slashed_segments else slashed_segments
        glob_parts pattern (parts ++ [last]) false rest
      else glob_parts pattern (separated ++ [segments_slashed]) false rest
    else
      match segment_regex segment with
      | .error error => .error error
      | .ok regex => glob_parts pattern (separated ++ [regex]) true rest

/-- One gitignore-style glob as the expression that is matched against a whole path. -/
def glob_to_regex (pattern : String) : Except GlobError (Regex Char) :=
  if pattern = "" then .error .empty_pattern
  else if startswith pattern "/" then .error (.leading_slash pattern)
  else (glob_parts pattern [] false (collapse_globstars (split_on '/' pattern))).map .concat

/-- Include and exclude globs, compiled. -/
structure PathFilter where
  include_regexes : List (Regex Char)
  exclude_regexes : List (Regex Char)

def PathFilter.make (include_globs exclude_globs : List String) : Except GlobError PathFilter := do
  let include_regexes ← include_globs.mapM glob_to_regex
  let exclude_regexes ← exclude_globs.mapM glob_to_regex
  return ⟨include_regexes, exclude_regexes⟩

/-- A path passes if it matches any include and no exclude. -/
def PathFilter.matches (filter : PathFilter) (path : String) : Bool :=
  if !filter.include_regexes.any fun regex => regex.accepts path.toList then false
  else !filter.exclude_regexes.any fun regex => regex.accepts path.toList

example : (PathFilter.make ["**/tests/**"] []).toOption.map (fun filter => ["tests/x.py", "a/b/tests/x.py", "a/latests/x.py"].map
    filter.matches) = some [true, true, false] := by
  decide +kernel

end AgenticKb

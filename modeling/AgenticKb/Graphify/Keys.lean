import AgenticKb.Registry

open AgenticKb.Lib

namespace AgenticKb

def file_key (path : String) : String := "file:" ++ path

def symbol_key (path name : String) : String := "sym:" ++ (path ++ "::" ++ name)

def test_key (path name : String) : String := "test:" ++ (path ++ "::" ++ name)

def endpoint_key (path http_method route : String) : String :=
  "endpoint:" ++ (path ++ "::" ++ (http_method ++ " " ++ route))

inductive CodeArtifactType where
  | code_file | code_symbol | endpoint | test
deriving DecidableEq, Repr

def CodeArtifactType.artifact_type : CodeArtifactType → ArtifactType
  | .code_file => .code_file
  | .code_symbol => .code_symbol
  | .endpoint => .endpoint
  | .test => .test

/-- `title` is `none` for a code file, which is matched by its path alone. -/
structure ParsedKey where
  artifact_type : CodeArtifactType
  path : String
  title : Option String
deriving DecidableEq, Repr

def KEY_SCHEMES : List (String × CodeArtifactType) :=
  [("sym:", .code_symbol), ("test:", .test), ("endpoint:", .endpoint)]

/-- Invert a symbolic key; `none` where the source raises `ValueError`. -/
def parse_key (key : String) : Option ParsedKey :=
  if startswith key "file:" then some ⟨.code_file, strip_leading key "file:", none⟩
  else do
    let (scheme, artifact_type) ← KEY_SCHEMES.find? fun entry => startswith key entry.1
    let (path, title) ← rpartition (strip_leading key scheme) "::"
    if path = "" || title = "" then none else some ⟨artifact_type, path, some title⟩

/-- The repo-relative file path a code artifact's key belongs to. -/
def path_of_code_key (key : String) : String :=
  if startswith key "file:" then strip_leading key "file:"
  else if startswith key "sym:" then before_first "::" (strip_leading key "sym:")
  else ""

@[simp] theorem path_of_code_key_file_key (path : String) : path_of_code_key (file_key path) = path := by
  rw [path_of_code_key, file_key, if_pos (startswith_append "file:" path), strip_leading_append]

/-- The path of a symbol, unless its own text lets the key be split earlier. -/
theorem path_of_code_key_symbol_key {path : String} (h : before_first "::" (path ++ "::") = path) (name : String) :
    path_of_code_key (symbol_key path name) = path := by
  have hother : startswith ("sym:" ++ (path ++ "::" ++ name)) "file:" = false := by
    rw [startswith, String.toList_append]
    rfl
  have hsep : ("::" : String).toList ≠ [] := by decide
  have hearlier := (before_first_append_iff hsep path "").1 (by rwa [String.append_empty])
  rw [path_of_code_key, symbol_key, hother, if_neg Bool.false_ne_true, if_pos (startswith_append "sym:" _),
    strip_leading_append, (before_first_append_iff hsep path name).2 hearlier]

example : parse_key "sym:src/a.py::run" = some ⟨.code_symbol, "src/a.py", some "run"⟩ := by decide

end AgenticKb

import AgenticKb.Graphify.Keys

open AgenticKb.Lib

namespace AgenticKb

/-- What an artifact's key is made of. -/
inductive Keyed where
  | file (path : String)
  | symbol (path name : String)
  | test (path name : String)
  | endpoint (path http_method route : String)
deriving DecidableEq, Repr

namespace Keyed

def key : Keyed → String
  | file path => file_key path
  | symbol path name => symbol_key path name
  | test path name => test_key path name
  | endpoint path http_method route => endpoint_key path http_method route

/-- What `parse_key` is to give back. -/
def encoded : Keyed → ParsedKey
  | file path => ⟨.code_file, path, none⟩
  | symbol path name => ⟨.code_symbol, path, some name⟩
  | test path name => ⟨.test, path, some name⟩
  | endpoint path http_method route => ⟨.endpoint, path, some (http_method ++ " " ++ route)⟩

/-- Both splitters give back what the key was made of, and nothing else has this key. -/
structure Decodes (keyed : Keyed) : Prop where
  parsed : parse_key keyed.key = some keyed.encoded
  agreed : path_of_code_key keyed.key = keyed.encoded.path
  distinct : ∀ other : Keyed, other.key = keyed.key → other = keyed

/-- The one separator that can be read off a symbol's key is the one that was put there; the build
runner's splitter does not know the keys of tests and endpoints. -/
def Unambiguous : Keyed → Prop
  | file _ => True
  | symbol path name =>
    path ≠ "" ∧ name ≠ "" ∧ contains (path ++ ":") "::" = false ∧ contains (":" ++ name) "::" = false
  | test _ _ => False
  | endpoint _ _ _ => False

instance : DecidablePred Unambiguous
  | file _ => inferInstanceAs (Decidable True)
  | symbol _ _ => inferInstanceAs (Decidable (_ ∧ _ ∧ _ ∧ _))
  | test _ _ | endpoint _ _ _ => inferInstanceAs (Decidable False)

end Keyed

section Split

variable {path name : String}

theorem contains_left_eq_false :
    contains (path ++ ":") "::" = false ↔ ¬("::" : String).toList <:+: path.toList ++ ("::" : String).toList.dropLast := by
  rw [contains, decide_eq_false_iff_not, String.toList_append]
  rfl

theorem contains_right_eq_false :
    contains (":" ++ name) "::" = false ↔ ¬("::" : String).toList <:+: ("::" : String).toList.tail ++ name.toList := by
  rw [contains, decide_eq_false_iff_not, String.toList_append]
  rfl

theorem startswith_of_scheme {scheme other : String} (rest : String)
    (h : ∀ text, other.toList.isPrefixOf (scheme.toList ++ text) = false) : startswith (scheme ++ rest) other = false := by
  rw [startswith, String.toList_append, h]

theorem parse_key_file_key : parse_key (file_key path) = some ⟨.code_file, path, none⟩ := by
  rw [parse_key, file_key, if_pos (startswith_append "file:" path), strip_leading_append]

theorem parse_key_symbol_key :
    parse_key (symbol_key path name) =
      (rpartition (path ++ "::" ++ name) "::").bind fun found =>
        if found.1 = "" || found.2 = "" then none else some ⟨.code_symbol, found.1, some found.2⟩ := by
  have hfile : startswith (symbol_key path name) "file:" = false := startswith_of_scheme _ fun _ => rfl
  have hscheme : KEY_SCHEMES.find? (fun scheme : String × CodeArtifactType => startswith (symbol_key path name) scheme.1) =
      some ("sym:", .code_symbol) :=
    List.find?_cons_of_pos (startswith_append "sym:" _)
  rw [parse_key, hfile, hscheme, if_neg Bool.false_ne_true]
  dsimp only [Option.bind_eq_bind, Option.bind_some]
  rw [symbol_key, strip_leading_append]

/-- Outside the files' scheme no key parses to the empty path. -/
theorem parse_key_path {key : String} {parsed : ParsedKey} (hfile : startswith key "file:" = false)
    (h : parse_key key = some parsed) : parsed.path ≠ "" := by
  rw [parse_key, hfile, if_neg Bool.false_ne_true] at h
  obtain ⟨scheme, -, h⟩ := Option.bind_eq_some_iff.1 h
  obtain ⟨found, -, h⟩ := Option.bind_eq_some_iff.1 h
  dsimp only at h
  split at h
  · simp at h
  · rename_i hnonempty
    rw [Bool.or_eq_true, decide_eq_true_eq, not_or] at hnonempty
    rw [← Option.some.inj h]
    exact hnonempty.1

end Split

namespace Keyed

variable {path name : String} {keyed other : Keyed}

/-- The schemes differ in their first letter. -/
def initial : Keyed → Char
  | file _ => 'f'
  | symbol _ _ => 's'
  | test _ _ => 't'
  | endpoint _ _ _ => 'e'

theorem head_key (keyed : Keyed) : keyed.key.toList.head? = some keyed.initial := by
  cases keyed with
  | file path => rw [key, file_key, String.toList_append]; rfl
  | symbol path name => rw [key, symbol_key, String.toList_append]; rfl
  | test path name => rw [key, test_key, String.toList_append]; rfl
  | endpoint path http_method route => rw [key, endpoint_key, String.toList_append]; rfl

theorem initial_eq (h : other.key = keyed.key) : other.initial = keyed.initial := by
  rw [← Option.some_inj, ← head_key, ← head_key, h]

theorem file_decodes (path : String) : (file path).Decodes where
  parsed := parse_key_file_key
  agreed := path_of_code_key_file_key path
  distinct other h := by
    have hinitial := initial_eq h
    cases other with
    | file other_path =>
      have hpath := congrArg path_of_code_key h
      rw [key, key, path_of_code_key_file_key, path_of_code_key_file_key] at hpath
      rw [hpath]
    | symbol _ _ => simp [initial] at hinitial
    | test _ _ => simp [initial] at hinitial
    | endpoint _ _ _ => simp [initial] at hinitial

/-- The build runner gives the empty path for a scheme it does not know, which `parse_key` never does. -/
theorem not_decodes_of_scheme (hfile : startswith keyed.key "file:" = false)
    (hsym : startswith keyed.key "sym:" = false) : ¬keyed.Decodes := by
  intro h
  have hempty : path_of_code_key keyed.key = "" := by
    rw [path_of_code_key, hfile, hsym, if_neg Bool.false_ne_true, if_neg Bool.false_ne_true]
  exact parse_key_path hfile h.parsed (h.agreed.symm.trans hempty)

theorem symbol_agreed_iff :
    path_of_code_key (symbol_key path name) = path ↔ contains (path ++ ":") "::" = false := by
  have hfile : startswith (symbol_key path name) "file:" = false := startswith_of_scheme _ fun _ => rfl
  have hsym : startswith (symbol_key path name) "sym:" = true := startswith_append "sym:" _
  rw [path_of_code_key, hfile, hsym, if_neg Bool.false_ne_true, if_pos rfl, symbol_key, strip_leading_append,
    before_first_append_iff (by decide), contains_left_eq_false]

theorem symbol_parsed_iff :
    parse_key (symbol_key path name) = some ⟨.code_symbol, path, some name⟩ ↔
      path ≠ "" ∧ name ≠ "" ∧ contains (":" ++ name) "::" = false := by
  rw [parse_key_symbol_key, contains_right_eq_false, ← rpartition_append_iff (by decide) path name]
  constructor
  · intro h
    obtain ⟨found, hfound, h⟩ := Option.bind_eq_some_iff.1 h
    split at h
    · simp at h
    · rename_i hnonempty
      simp only [Option.some.injEq, ParsedKey.mk.injEq, true_and] at h
      obtain ⟨rfl, rfl⟩ := h
      rw [Bool.or_eq_true, decide_eq_true_eq, decide_eq_true_eq, not_or] at hnonempty
      exact ⟨hnonempty.1, hnonempty.2, hfound⟩
  · rintro ⟨hpath, hname, hfound⟩
    rw [hfound, Option.bind_some, if_neg]
    simp [hpath, hname]

theorem symbol_distinct (hleft : contains (path ++ ":") "::" = false) (hright : contains (":" ++ name) "::" = false)
    (h : other.key = (symbol path name).key) : other = symbol path name := by
  have hinitial := initial_eq h
  cases other with
  | file _ => simp [initial] at hinitial
  | symbol other_path other_name =>
    rw [key, key, symbol_key, symbol_key, String.ext_iff] at h
    simp only [String.toList_append, List.append_assoc, List.append_cancel_left_eq] at h
    obtain ⟨hpath, hname⟩ := append_sep_inj (by decide) (contains_left_eq_false.1 hleft) (contains_right_eq_false.1 hright) h
    rw [String.ext hpath, String.ext hname]
  | test _ _ => simp [initial] at hinitial
  | endpoint _ _ _ => simp [initial] at hinitial

/-- A key gives back what it was made of exactly where its separator is the only one to be read. -/
theorem decodes_iff (keyed : Keyed) : keyed.Decodes ↔ keyed.Unambiguous := by
  cases keyed with
  | file path => exact iff_of_true (file_decodes path) trivial
  | symbol path name =>
    constructor
    · intro h
      obtain ⟨hpath, hname, hright⟩ := symbol_parsed_iff.1 h.parsed
      exact ⟨hpath, hname, symbol_agreed_iff.1 h.agreed, hright⟩
    · rintro ⟨hpath, hname, hleft, hright⟩
      exact ⟨symbol_parsed_iff.2 ⟨hpath, hname, hright⟩, symbol_agreed_iff.2 hleft, fun _ => symbol_distinct hleft hright⟩
  | test path name =>
    exact iff_of_false (not_decodes_of_scheme (startswith_of_scheme _ fun _ => rfl) (startswith_of_scheme _ fun _ => rfl)) id
  | endpoint path http_method route =>
    exact iff_of_false (not_decodes_of_scheme (startswith_of_scheme _ fun _ => rfl) (startswith_of_scheme _ fun _ => rfl)) id

/-- A name that holds the separator is looked up under another file, and its key is another symbol's too. -/
theorem qualified_name_not_decoded :
    ¬(symbol "src/a.cpp" "Box::open").Decodes ∧
      parse_key (symbol_key "src/a.cpp" "Box::open") = some ⟨.code_symbol, "src/a.cpp::Box", some "open"⟩ ∧
      path_of_code_key (symbol_key "src/a.cpp" "Box::open") = "src/a.cpp" ∧
      symbol_key "src/a.cpp" "Box::open" = symbol_key "src/a.cpp::Box" "open" := by
  have hparsed : parse_key (symbol_key "src/a.cpp" "Box::open") = some ⟨.code_symbol, "src/a.cpp::Box", some "open"⟩ := by
    decide +kernel
  refine ⟨?_, hparsed, by decide +kernel, by decide +kernel⟩
  intro h
  have hencoded := h.parsed.symm.trans hparsed
  simp [encoded] at hencoded

end Keyed

end AgenticKb

import AgenticKb.Connectors.GitMetadata
import AgenticKb.Linker.WriteEdges

open AgenticKb.Lib

namespace AgenticKb

/-- A parsed reference: the numeric or SHA key and the exact matched text. -/
structure Reference where
  key : String
  matched : String
deriving DecidableEq, Repr

/-- `literal(?P<id>\d+)`. -/
private def literal_then_digits (u : Unicode) (literal : List Char) (_prev : Option Char)
    (text : List Char) : Option (List Char × Nat) :=
  if literal.isPrefixOf text then
    let digits := (text.drop literal.length).takeWhile u.is_digit
    if digits.isEmpty then none else some (digits, literal.length + digits.length)
  else none

/-- `PR\s*#(?P<id>\d+)`, ignoring case. -/
private def pull_request (u : Unicode) (_prev : Option Char) (text : List Char) :
    Option (List Char × Nat) :=
  match text with
  | c :: d :: rest =>
    if u.same_letter c 'P' && u.same_letter d 'R' then
      let spaces := rest.takeWhile u.is_space
      match rest.drop spaces.length with
      | '#' :: tail =>
        let digits := tail.takeWhile u.is_digit
        if digits.isEmpty then none else some (digits, 3 + spaces.length + digits.length)
      | _ => none
    else none
  | _ => none

/-- `(?<![\w#-])#(?P<id>\d+)`. -/
private def bare_hash (u : Unicode) (prev : Option Char) (text : List Char) :
    Option (List Char × Nat) :=
  if prev.any fun c => u.is_word c || c == '#' || c == '-' then none
  else literal_then_digits u ['#'] prev text

/-- `(?<=/)(?P<id>\d+)(?=[-_/]|$)`, or with `(?<=^)` in front. -/
private def branch_number (u : Unicode) (at_start : Bool) (prev : Option Char) (text : List Char) :
    Option (List Char × Nat) :=
  if prev == (if at_start then none else some '/') then
    let digits := text.takeWhile u.is_digit
    let tail := text.drop digits.length
    let ends := match tail with
      | [] => true
      | ['\n'] => true
      | c :: _ => c == '-' || c == '_' || c == '/'
    if digits.isEmpty || !ends then none else some (digits, digits.length)
  else none

/-- A 7-40 character lowercase hex run between non-word characters, with at least one letter. -/
private def sha_run (u : Unicode) (prev : Option Char) (text : List Char) :
    Option (List Char × Nat) :=
  let is_hex (c : Char) := ('0' ≤ c && c ≤ '9') || ('a' ≤ c && c ≤ 'f')
  let hex := text.takeWhile is_hex
  if prev.any u.is_word || (text.drop hex.length).head?.any u.is_word then none
  else if 7 ≤ hex.length && hex.length ≤ 40 && hex.any (fun c => 'a' ≤ c) then
    some (hex, hex.length)
  else none

/-- `refs.setdefault(key, _Reference(key, matched))` over the matches of one pattern. -/
private def collect_references (refs : Dict String Reference)
    (found : List (String × String)) : Dict String Reference :=
  found.foldl (fun refs (key, matched) => refs.setdefault key ⟨key, matched⟩) refs

/-- Explicit work-item references of a commit message and its branch name; a bare number in the
message is never one. -/
def parse_work_item_references (u : Unicode) (message : String) (branch : Option String) :
    List Reference :=
  let scan (text : String) (matcher : Option Char → List Char → Option (List Char × Nat)) :=
    finditer matcher 0 none text.toList
  let from_message := [literal_then_digits u "AB#".toList, literal_then_digits u "GH-".toList,
    pull_request u, bare_hash u].foldl (fun refs m => collect_references refs (scan message m)) []
  let refs := match branch with
    | some name =>
      [literal_then_digits u "AB-".toList, literal_then_digits u "GH-".toList,
        branch_number u false, branch_number u true].foldl
        (fun refs m => collect_references refs (scan name m)) from_message
    | none => from_message
  refs.map (·.2)

def parse_sha_references (u : Unicode) (message : String) : List Reference :=
  (collect_references [] (finditer (sha_run u) 0 none message.toList)).map (·.2)

/-- The keys a work item can be matched on: its external id, the digit runs of that id and the
digit runs of its title. -/
def work_item_keys (u : Unicode) (artifact : LinkableArtifact) : List String :=
  let from_id := match artifact.external_id with
    | some id => if id = "" then [] else strip u id :: runs u.is_digit id
    | none => []
  let from_title := (artifact.title.getD "" |> runs u.is_digit)
  (from_id ++ from_title).filter fun key => key ≠ ""

def work_item_index (u : Unicode) (artifacts : List LinkableArtifact) :
    Dict String LinkableArtifact :=
  (artifacts.filter fun a => WORK_ITEM_SOURCE_TYPES.contains a.source_type).foldl
    (fun index artifact =>
      (work_item_keys u artifact).foldl (fun index key => index.setdefault key artifact) index) []

/-- Exact SHA first, then a prefix that only one known commit has. -/
def resolve_sha (sha : String) (sha_index : Dict String LinkableArtifact) :
    Option LinkableArtifact :=
  match sha_index.get? sha with
  | some exact_match => some exact_match
  | none =>
    match sha_index.filter fun entry => startswith entry.1 sha with
    | [only] => some only.2
    | _ => none

section Links

variable (u : Unicode)

/-- The link drafts of one commit: work items it refers to, commits it refers to, files it changed. -/
def commit_links (work_items sha_index code_files : Dict String LinkableArtifact)
    (commit : LinkableArtifact) : List LinkEdgeDraft :=
  let message := commit.body_text.getD ""
  let draft (target : LinkableArtifact) (edge_type : LinkerEdgeType) (evidence : Evidence) :
      LinkEdgeDraft :=
    { from_artifact_id := commit.artifact_id, to_artifact_id := target.artifact_id, edge_type
      confidence := 95 / 100, strategy := .deterministic, evidence := some evidence }
  let implements := (parse_work_item_references u message commit.branch).filterMap fun ref =>
    (work_items.get? ref.key).map fun target =>
      draft target .implements (.work_item_ref ref.matched)
  let commits := (parse_sha_references u message).filterMap fun ref =>
    (resolve_sha ref.key sha_index).map fun target =>
      draft target .implements (.commit_ref ref.matched)
  let mentions := (parse_changed_files u message).filterMap fun path =>
    (code_files.get? path).map fun target => draft target .mentions (.changed_file path)
  implements ++ commits ++ mentions

/-- The deterministic cross-domain rules for commits; each draft carries an evidence pointer. -/
def find_cross_domain_links (artifacts : List LinkableArtifact) : List LinkEdgeDraft :=
  let commits := artifacts.filter fun a => a.artifact_type == COMMIT_ARTIFACT_TYPE
  let sha_index := (commits.filter fun a => a.external_id.any (· ≠ "")).foldl
    (fun (d : Dict String LinkableArtifact) a => d.set (a.external_id.getD "") a) []
  let code_files := (artifacts.filter fun a => a.artifact_type == .code_file && a.path.isSome).foldl
    (fun (d : Dict String LinkableArtifact) a => d.set (a.path.getD "") a) []
  (commits.flatMap (commit_links u (work_item_index u artifacts) sha_index code_files)).foldl
    add_link []

/-- A document that names a work-item id in an explicit form mentions that work item. -/
def find_doc_work_item_mentions (docs artifacts : List LinkableArtifact) : List LinkEdgeDraft :=
  let work_items := work_item_index u artifacts
  (docs.flatMap fun doc =>
    (parse_work_item_references u (doc.body_text.getD "") none).filterMap fun ref =>
      (work_items.get? ref.key).map fun target =>
        ({ from_artifact_id := doc.artifact_id, to_artifact_id := target.artifact_id
           edge_type := .mentions, confidence := 95 / 100, strategy := .deterministic
           evidence := some (.work_item_ref ref.matched) } : LinkEdgeDraft)).foldl add_link []

end Links

example : parse_work_item_references .ascii "AB#12, PR #7 and 9 more" (some "fix/31-x") =
    [⟨"12", "AB#12"⟩, ⟨"7", "PR #7"⟩, ⟨"31", "31"⟩] := by decide

end AgenticKb

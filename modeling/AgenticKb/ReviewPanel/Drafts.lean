import AgenticKb.Lib.Json
import AgenticKb.Registry
import AgenticKb.ReviewPanel.Reconcile
import AgenticKb.ReviewPanel.Untrusted

open AgenticKb.Lib

namespace AgenticKb.ReviewPanel

/-! What a model's reply is read as, and the draft that is put together from it. -/

def Verdict.text : Verdict → String
  | .approve => "approve"
  | .request_changes => "request_changes"

/-- The specialist lenses. -/
inductive Lens where
  | bug | security | quality | test_coverage
deriving DecidableEq, Repr

def Lens.text : Lens → String
  | .bug => "bug"
  | .security => "security"
  | .quality => "quality"
  | .test_coverage => "test_coverage"

/-- The lenses in canonical order. -/
def PANEL_LENSES : List Lens := [.bug, .security, .quality, .test_coverage]

section Replies

/-- A value that `json.loads` gives. -/
inductive Payload where
  | str (value : String)
  | arr (items : List Payload)
  | obj (fields : List (String × Payload))
  /-- A number, a truth value or null. -/
  | other

/-- What the parsing of replies uses of libraries: `json.loads`, with its error, and the text of a validation error. -/
structure Parser where
  unicode : Unicode
  json_loads : String → Except String Payload
  validation_error : Payload → String

def Payload.as_str : Payload → Option String
  | .str value => some value
  | _ => none

/-- A list of strings. -/
def Payload.as_strs : Payload → Option (List String)
  | .arr items => items.mapM Payload.as_str
  | _ => none

/-- The fields of an object that has no others than some. -/
def Payload.fields (names : List String) : Payload → Option (Dict String Payload)
  | .obj fields => if fields.all fun field => names.contains field.1 then some fields else none
  | _ => none

def validate_severity (text : String) : Option Severity :=
  [Severity.blocker, .major, .minor, .note].find? fun severity => severity.text = text

def validate_verdict (text : String) : Option Verdict :=
  [Verdict.approve, .request_changes].find? fun verdict => verdict.text = text

/-- `ReviewFinding.model_validate`, without its error. -/
def validate_finding (payload : Payload) : Option ReviewFinding := do
  let fields ← payload.fields ["severity", "finding", "evidence_ids"]
  let severity ← (← (← fields.get? "severity").as_str) |> validate_severity
  let finding ← (← fields.get? "finding").as_str
  let evidence_ids ← (← fields.get? "evidence_ids").as_strs
  if 1 ≤ finding.length ∧ 1 ≤ evidence_ids.length then some { severity, finding, evidence_ids } else none

def Payload.as_findings : Payload → Option (List ReviewFinding)
  | .arr items => items.mapM validate_finding
  | _ => none

def REVIEW_FINDINGS_SCHEMA_VERSION : String := "1.0.0"

/-- A field that may be missing. -/
def optional {α : Type*} (field : Option Payload) (read : Payload → Option α) (default : α) : Option α :=
  match field with
  | none => some default
  | some payload => read payload

/-- `ReviewFindingsV1.model_validate`, without its error. -/
def validate_review (payload : Payload) : Option ReviewFindingsV1 := do
  let fields ← payload.fields ["schema_version", "verdict", "findings", "open_questions"]
  let version ← optional (fields.get? "schema_version") Payload.as_str REVIEW_FINDINGS_SCHEMA_VERSION
  let verdict ← (← (← fields.get? "verdict").as_str) |> validate_verdict
  let findings ← optional (fields.get? "findings") Payload.as_findings []
  let open_questions ← optional (fields.get? "open_questions") Payload.as_strs []
  if version = REVIEW_FINDINGS_SCHEMA_VERSION then some { verdict, findings, open_questions } else none

def FENCE : String := "```"

/-- Whether what is between the fences opens and closes with a line break of its own, among the blanks there. -/
def fences_lines (u : Unicode) (between : List Char) : Bool :=
  let opening := between.takeWhile u.is_space
  let closing := (between.reverse.takeWhile u.is_space).reverse
  if opening.length < between.length then opening.contains '\n' && closing.contains '\n'
  else 2 ≤ opening.count '\n'

/-- What `_CODE_FENCE` finds in a text without blanks at its ends, stripped: the fences stand alone on their lines, and
the first one may be labelled. -/
def code_fence (u : Unicode) (text : String) : Option String :=
  if startswith text FENCE then
    let opened := strip_leading (strip_leading text FENCE) "json"
    if endswith opened FENCE then
      let between := opened.toList.take (opened.length - FENCE.length)
      if fences_lines u between then some (strip u (String.ofList between)) else none
    else none
  else none

/-- The text of a `ReviewerOutputError`, or the review that a reply is. -/
def parse_review_findings (parser : Parser) (raw lens : String) : Except String ReviewFindingsV1 :=
  let text := strip parser.unicode raw
  match parser.json_loads ((code_fence parser.unicode text).getD text) with
  | .error exc => .error ("lens=" ++ lens ++ " output is not JSON: " ++ exc)
  | .ok payload =>
    match validate_review payload with
    | some review => .ok review
    | none => .error ("lens=" ++ lens ++ " output failed review_findings_v1: " ++ parser.validation_error payload)

end Replies

section Rendering

def DRAFT_DISCLAIMER : String :=
  "_Draft prepared by the review-panel engine (ADR-0031). It is never published " ++
  "automatically — read it, edit it, and publish it yourself from your own session._"

def quoted (id : String) : String := "`" ++ id ++ "`"

/-- One editable comment for a merged finding. -/
def suggested_comment (finding : MergedFinding) : String :=
  let lenses := join ", " finding.lenses
  let evidence := join ", " (finding.evidence_ids.map quoted)
  let lines :=
    ["**[" ++ finding.severity.text ++ "]** " ++ finding.finding, "Evidence: " ++ evidence ++ " (lenses: " ++ lenses ++ ")"]
  join "\n" (match finding.disagreement with
    | some disagreement => if disagreement ≠ "" then lines ++ ["Panel disagreement: " ++ disagreement] else lines
    | none => lines)

/-- The questions of the panel, and those of the synthesis that are not there yet. -/
def all_open_questions (reconciled : ReconciledReview) (synthesis : ReviewFindingsV1) : List String :=
  -- the list is tested while it grows, so a question asked twice is taken once
  synthesis.open_questions.foldl (fun questions q => if questions.contains q then questions else questions ++ [q])
    reconciled.open_questions

/-- The lines of the summary for a merged finding. -/
def finding_lines (index : Nat) (finding : MergedFinding) : List String :=
  let lenses := join ", " finding.lenses
  let evidence := join ", " (finding.evidence_ids.map quoted)
  (toString index ++ ". **[" ++ finding.severity.text ++ "]** " ++ finding.finding ++ " (lenses: " ++ lenses ++
    "; evidence: " ++ evidence ++ ")") ::
  match finding.disagreement with
  | some disagreement => if disagreement ≠ "" then ["   - Disagreement: " ++ disagreement] else []
  | none => []

/-- One editable overall review. -/
def summary_markdown (repo : String) (pr_number : Int) (head_sha : String) (reconciled : ReconciledReview)
    (synthesis : ReviewFindingsV1) : String :=
  let heading :=
    ["## Review-panel draft — " ++ repo ++ "#" ++ toString pr_number ++ " @ `" ++ take_chars head_sha 12 ++ "`", "",
      "**Advisory verdict (draft, not published): `" ++ synthesis.verdict.text ++ "`**", ""]
  let synthesized :=
    if synthesis.findings.isEmpty then []
    else "### Synthesis (code_reviewer)" :: synthesis.findings.map (fun f =>
      "- **[" ++ f.severity.text ++ "]** " ++ f.finding ++ " (evidence: " ++ join ", " f.evidence_ids ++ ")") ++ [""]
  let panel :=
    ("### Panel findings (" ++ toString reconciled.lens_verdicts.length ++ " lenses, ranked by severity)") ::
      if reconciled.findings.isEmpty then ["No findings from any lens."]
      else reconciled.findings.zipIdx.flatMap fun entry => finding_lines (entry.2 + 1) entry.1
  let open_questions := all_open_questions reconciled synthesis
  let questions :=
    if open_questions.isEmpty then [] else ["", "### Open questions"] ++ open_questions.map fun question => "- " ++ question
  join "\n" (heading ++ synthesized ++ panel ++ questions ++ ["", DRAFT_DISCLAIMER])

end Rendering

section Drafts

def ENGINE_NAME : String := "review-panel"
def ENGINE_VERSION : String := "0.1.0"

/-- Draft identity and thread id. -/
def draft_key (repo : String) (pr_number : Int) (head_sha : String) : String :=
  repo ++ "#" ++ toString pr_number ++ "@" ++ head_sha

/-- One reconciled finding and its suggested comment. -/
structure DraftFinding where
  severity : Severity
  finding : String
  evidence_ids : List String
  lenses : List String
  disagreement : Option String := none
  suggested_comment : String
deriving DecidableEq

structure DraftProvenance where
  engine : String := ENGINE_NAME
  engine_version : String := ENGINE_VERSION
  model : String
  lenses : List String := PANEL_LENSES.map Lens.text
  kb_used : Bool := false
deriving DecidableEq

structure ReviewDraft where
  draft_key : String
  repo : String
  pr_number : Int
  head_sha : String
  generated_at : Timestamp
  advisory_verdict : Verdict
  lens_verdicts : Dict String Verdict
  findings : List DraftFinding
  open_questions : List String
  synthesis : ReviewFindingsV1
  summary_markdown : String
  provenance : DraftProvenance
deriving DecidableEq

/-- The draft of a reconciled panel. -/
def build_draft (pr : PRContext) (reconciled : ReconciledReview) (synthesis : ReviewFindingsV1) (model : String)
    (kb_used : Bool) (now : Timestamp) : ReviewDraft where
  draft_key := draft_key pr.repo pr.number pr.head_sha
  repo := pr.repo
  pr_number := pr.number
  head_sha := pr.head_sha
  generated_at := now
  advisory_verdict := synthesis.verdict
  lens_verdicts := reconciled.lens_verdicts
  findings := reconciled.findings.map fun finding =>
    { severity := finding.severity, finding := finding.finding, evidence_ids := finding.evidence_ids
      lenses := finding.lenses, disagreement := finding.disagreement, suggested_comment := suggested_comment finding }
  open_questions := all_open_questions reconciled synthesis
  synthesis
  summary_markdown := summary_markdown pr.repo pr.number pr.head_sha reconciled synthesis
  provenance := { model, kb_used }

end Drafts

section Documents

/-- A character of a string that `json.dumps` writes in ASCII. -/
def escape_ascii (c : Char) : List Char :=
  let hex (n : Nat) : List Char :=
    ['\\', 'u', Nat.digitChar (n / 4096), Nat.digitChar (n / 256 % 16), Nat.digitChar (n / 16 % 16), Nat.digitChar (n % 16)]
  if c = '"' then ['\\', '"']
  else if c = '\\' then ['\\', '\\']
  else if c = '\n' then ['\\', 'n']
  else if c = '\r' then ['\\', 'r']
  else if c = '\t' then ['\\', 't']
  else if c = '\x0c' then ['\\', 'f']
  else if c = '\x08' then ['\\', 'b']
  else if 0x20 ≤ c.toNat ∧ c.toNat < 0x7f then [c]
  else if c.toNat < 0x10000 then hex c.toNat
  else hex (0xd800 + (c.toNat - 0x10000) / 0x400) ++ hex (0xdc00 + (c.toNat - 0x10000) % 0x400)

def dump_ascii (s : String) : List Char := '"' :: (s.toList.flatMap escape_ascii ++ ['"'])

/-- The start of a line at a depth. -/
def new_line (depth : Nat) : List Char := '\n' :: List.replicate (2 * depth) ' '

mutual

/-- `json.dumps(value, indent=2)`, at a depth. -/
def dump_indented (depth : Nat) : Json → List Char
  | .null => "null".toList
  | .bool true => "true".toList
  | .bool false => "false".toList
  | .str value => dump_ascii value
  | .arr [] => ['[', ']']
  | .arr (item :: items) =>
    '[' :: (new_line (depth + 1) ++ dump_indented (depth + 1) item ++ dump_items_indented depth items)
  | .obj [] => ['\x7b', '\x7d']
  | .obj (field :: fields) =>
    '\x7b' :: (new_line (depth + 1) ++ dump_field_indented depth field ++ dump_fields_indented depth fields)

/-- The items of an array behind its first one. -/
def dump_items_indented (depth : Nat) : List Json → List Char
  | [] => new_line depth ++ [']']
  | item :: items => ',' :: (new_line (depth + 1) ++ dump_indented (depth + 1) item ++ dump_items_indented depth items)

/-- The fields of an object behind its first one. -/
def dump_fields_indented (depth : Nat) : List (String × Json) → List Char
  | [] => new_line depth ++ ['\x7d']
  | field :: fields => ',' :: (new_line (depth + 1) ++ dump_field_indented depth field ++ dump_fields_indented depth fields)

def dump_field_indented (depth : Nat) : String × Json → List Char
  | (key, value) => dump_ascii key ++ [':', ' '] ++ dump_indented (depth + 1) value

end

def json_strs (values : List String) : Json := .arr (values.map Json.str)

def ReviewFinding.model_dump (finding : ReviewFinding) : Json :=
  .obj [("severity", .str finding.severity.text), ("finding", .str finding.finding),
    ("evidence_ids", json_strs finding.evidence_ids)]

def ReviewFindingsV1.model_dump (review : ReviewFindingsV1) : Json :=
  .obj [("schema_version", .str REVIEW_FINDINGS_SCHEMA_VERSION), ("verdict", .str review.verdict.text),
    ("findings", .arr (review.findings.map ReviewFinding.model_dump)), ("open_questions", json_strs review.open_questions)]

def PanelistReview.model_dump (panelist : PanelistReview) : Json :=
  .obj [("lens", .str panelist.lens), ("review", panelist.review.model_dump)]

def MergedFinding.model_dump (finding : MergedFinding) : Json :=
  .obj [("severity", .str finding.severity.text), ("finding", .str finding.finding),
    ("evidence_ids", json_strs finding.evidence_ids), ("lenses", json_strs finding.lenses),
    ("disagreement", Json.option_str finding.disagreement)]

def ReconciledReview.model_dump (reconciled : ReconciledReview) : Json :=
  .obj [("findings", .arr (reconciled.findings.map MergedFinding.model_dump)),
    ("open_questions", json_strs reconciled.open_questions),
    ("lens_verdicts", .obj (reconciled.lens_verdicts.map fun entry => (entry.1, .str entry.2.text)))]

end Documents

end AgenticKb.ReviewPanel

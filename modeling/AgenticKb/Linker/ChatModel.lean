import AgenticKb.Linker.Judge

open AgenticKb.Lib

namespace AgenticKb

/-- Small models now and then emit malformed JSON; an answer is sampled a few times before the call fails. -/
def MAX_PARSE_ATTEMPTS : Nat := 3

/-- A value read from JSON, as far as it is looked at; `scalar` is a number, a truth value or null. -/
inductive Loaded where
  | str (value : String)
  | list (items : List Loaded)
  | dict (entries : List (String × Loaded))
  | scalar

private def is_ascii_letter (c : Char) : Bool := c.isAlpha

/-- Without the opening fence, its language tag and one line break. -/
def strip_fence_start (text : List Char) : List Char :=
  match (text.drop 3).dropWhile is_ascii_letter with
  | '\n' :: rest => rest
  | rest => rest

/-- Without the closing fence and the line break before it. -/
def strip_fence_end (text : List Char) : List Char :=
  match text.reverse with
  | a :: b :: c :: before =>
    if String.ofList [a, b, c] = "```" then
      match before with
      | '\n' :: rest => rest.reverse
      | rest => rest.reverse
    else text
  | _ => text

/-- From the first opening brace to the last closing one, or the whole text where there is no such span. -/
def braces (text : String) : String :=
  let opened := text.toList.dropWhile fun c => c != '\x7b'
  let closed := (opened.reverse.dropWhile fun c => c != '\x7d').reverse
  if closed.isEmpty then text else String.ofList closed

def extract_json (u : Unicode) (raw : String) : String :=
  let text := strip u raw
  braces <| if startswith text "```" then
    strip u (String.ofList (strip_fence_end (strip_fence_start text.toList)))
  else text

private def Loaded.dict? : Loaded → Option (Dict String Loaded)
  | .dict entries => some entries
  | _ => none

/-- The first object of an array; any other value is left as it is. -/
def unwrap_list : Loaded → Loaded
  | .list items => ((items.findSome? Loaded.dict?).map Loaded.dict).getD (.list items)
  | data => data

def Loaded.str? : Loaded → Option String
  | .str value => some value
  | _ => none

/-- The fields of a verdict as the model gave them, where they are strings. -/
structure Verdict where
  relation_type : Option String
  trust_bucket : Option String
  supporting_quote : String
  reason : String
deriving DecidableEq, Repr

/-- A relation outside the vocabulary makes the pair ambiguous, and so does a bucket outside it. -/
def Verdict.judgment (verdict : Verdict) : RelationshipJudgment :=
  { trust_bucket :=
      if verdict.relation_type.any JUDGE_RELATION_TYPES.contains then
        (verdict.trust_bucket.bind judge_trust_bucket).getD .AMBIGUOUS
      else .AMBIGUOUS
    supporting_quote := verdict.supporting_quote
    reason := verdict.reason }

/-- The chat endpoint behind the client, and the libraries that read its answers. -/
structure ChatModelClient where
  model_name : String
  model_params_hash : String
  /-- The raw answer of an attempt; `none` is a call that fails. -/
  complete : JudgeCandidate → Nat → Option String
  /-- `json.loads`; `none` is a text that is no JSON. -/
  json_loads : String → Option Loaded
  repair_json : String → Loaded

namespace ChatModelClient

variable (u : Unicode) (client : ChatModelClient)

/-- The verdict of a raw answer; an answer with no object, or with an empty one, is not usable. -/
def parse_verdict (raw : String) : Option Verdict :=
  let extracted := extract_json u raw
  match unwrap_list ((client.json_loads extracted).getD (client.repair_json extracted)) with
  | .dict entries =>
    if entries.isEmpty then none
    else
      let field (name : String) := (Dict.get? entries name).bind Loaded.str?
      some
        { relation_type := field "relation_type"
          trust_bucket := field "trust_bucket"
          supporting_quote := (field "supporting_quote").getD ""
          reason := (field "reason").getD "" }
  | _ => none

def parse_judgment (raw : String) : Option RelationshipJudgment := (client.parse_verdict u raw).map Verdict.judgment

/-- Sample answers until one can be parsed. A call that fails is not tried again. -/
def sample (candidate : JudgeCandidate) : Nat → Nat → Option String
  | _, 0 => none
  | attempt, attempts + 1 => do
    let raw ← client.complete candidate attempt
    if (client.parse_judgment u raw).isSome then some raw else sample candidate (attempt + 1) attempts

/-- Ask for a verdict, and guard its quote at the call boundary. -/
def generate_relationship_judgment (candidate : JudgeCandidate) : Option RelationshipJudgment := do
  let raw ← client.sample u candidate 0 MAX_PARSE_ATTEMPTS
  let judgment ← client.parse_judgment u raw
  some (guard_quote u judgment [candidate.from_endpoint.evidence_text, candidate.to_endpoint.evidence_text])

def judge : RelationshipJudge where
  model_name := client.model_name
  model_params_hash := client.model_params_hash
  generate_relationship_judgment := client.generate_relationship_judgment u

end ChatModelClient

end AgenticKb

import AgenticKb.ContextBroker.Cards

open AgenticKb.Lib

namespace AgenticKb.ContextBroker

inductive Intent where
  | how_does_x_work | why_was_x_changed | who_owns_x | what_calls_x
deriving DecidableEq, Repr

/-- The multiplier of a kind under an intent; above one lifts, below one ranks down. -/
def INTENT_KIND_WEIGHT : Intent → SourceKind → Rat
  | .how_does_x_work, .code => 3 / 2
  | .how_does_x_work, .adr => 9 / 10
  | .how_does_x_work, .pr => 4 / 5
  | .how_does_x_work, .card => 7 / 10
  | .why_was_x_changed, .card => 3 / 2
  | .why_was_x_changed, .pr => 3 / 2
  | .why_was_x_changed, .adr => 7 / 5
  | .why_was_x_changed, .code => 9 / 10
  | .who_owns_x, .pr => 3 / 2
  | .who_owns_x, .card => 13 / 10
  | .who_owns_x, .code => 11 / 10
  | .who_owns_x, .doc => 9 / 10
  | .what_calls_x, .code => 7 / 5
  | .what_calls_x, .doc => 9 / 10
  | .what_calls_x, .adr => 9 / 10
  | .what_calls_x, .pr => 9 / 10
  | .what_calls_x, .card => 4 / 5
  | _, _ => 1

def SUPERSEDED_WEIGHT : Rat := 3 / 5
def STALE_DOC_WEIGHT : Rat := 1 / 4

/-- The temporal multiplier of one artifact, with its factors. Without an intent the kind is neutral. -/
def compute_weight (intent : Option Intent) (row : ArtifactRow) (stale_for_intent : Bool) : TemporalWeight :=
  let source_kind := derive_source_kind row.source_type row.artifact_type
  let state := derive_state row
  let kind_weight := (intent.map fun intent => INTENT_KIND_WEIGHT intent source_kind).getD 1
  let state_weight := if state = .superseded then SUPERSEDED_WEIGHT else 1
  let stale_weight := if stale_for_intent then STALE_DOC_WEIGHT else 1
  { source_kind, state, stale_for_intent, weight := kind_weight * state_weight * stale_weight }

/-- The intents under which a document that contradicts the code is stale. -/
def STALENESS_INTENTS : List Intent := [.how_does_x_work, .what_calls_x]

def MIN_SYMBOL_LEN : Nat := 2

/-- A backtick-quoted identifier. -/
def symbol_reference (_ : Option Char) (text : List Char) : Option (List Char × Nat) :=
  match text with
  | '`' :: c :: rest =>
    if c.isAlpha || c == '_' then
      let name := c :: rest.takeWhile fun c => c.isAlphanum || c == '_' || c == '.'
      if (rest.drop (name.length - 1)).head? = some '`' then some (name, name.length + 2) else none
    else none
  | _ => none

/-- The code symbols a text names: each reference, and the last segment of a dotted one. -/
def referenced_symbols (text : Option String) : List String :=
  (finditer symbol_reference 0 none (text.getD "").toList).flatMap fun (name, _) =>
    if name.length < MIN_SYMBOL_LEN then []
    else
      match rpartition name "." with
      | some (_, tail) => if tail.length < MIN_SYMBOL_LEN then [name] else [name, tail]
      | none => [name]

/-- A document that names a symbol the current code does not have, under an intent that asks for structure. -/
def is_stale_doc_for_intent (intent : Option Intent) (row : ArtifactRow) (current_symbols : List String) : Bool :=
  intent.any STALENESS_INTENTS.contains && derive_source_kind row.source_type row.artifact_type == .doc &&
    (referenced_symbols row.body_text ++ referenced_symbols row.title).any fun ref => !current_symbols.contains ref

example : referenced_symbols (some "call `pkg.helper` or `x`, not ``") = ["pkg.helper", "helper"] := by decide

end AgenticKb.ContextBroker

import Mathlib.Algebra.Order.Ring.Unbundled.Rat
import AgenticKb.ContextBroker.Database

open AgenticKb.Lib

namespace AgenticKb

def ArtifactType.text : ArtifactType → String
  | .code_file => "code_file"
  | .code_symbol => "code_symbol"
  | .endpoint => "endpoint"
  | .test => "test"
  | .summary => "summary"
  | .concept => "concept"
  | .source_backed_fact => "source_backed_fact"
  | .chunk => "chunk"
  | .commit => "commit"
  | .alias_reference => "alias_reference"

namespace ContextBroker

def CHARS_PER_TOKEN : Nat := 4

def estimate_tokens (text : String) : Nat := (text.length + CHARS_PER_TOKEN - 1) / CHARS_PER_TOKEN

/-- The signals of the injection scan, one compiled pattern each. -/
inductive InjectionSignal where
  | instruction_override | role_reassignment | system_role_marker
  | chat_template_token | secret_exfiltration | unicode_obfuscation
deriving DecidableEq, Repr

def injection_signals : List InjectionSignal :=
  [.instruction_override, .role_reassignment, .system_role_marker, .chat_template_token, .secret_exfiltration,
    .unicode_obfuscation]

inductive SourceKind where
  | code | doc | card | pr | adr | other
deriving DecidableEq, Repr

inductive TemporalState where
  | current | superseded
deriving DecidableEq, Repr

/-- Compact, expandable pointer to one artifact. Its level is always `L1`. -/
structure EvidenceCard where
  evidence_id : String
  artifact_id : Uuid
  card_type : ArtifactType
  title : String
  summary : String
  source_uri : String
  display_citation : String
  confidence : Rat
  authority_score : Rat
  tokens_if_expanded : Nat
  injection_flagged : Bool
  injection_signals : List InjectionSignal
  source_kind : SourceKind
  temporal_state : TemporalState
  stale_for_intent : Bool
deriving DecidableEq, Repr

structure AgentAllowance where
  max_requests : Nat
  max_tokens : Nat
deriving DecidableEq, Repr

def DEFAULT_AGENT_ALLOWANCE : AgentAllowance := { max_requests := 1, max_tokens := 4000 }

structure BudgetPolicy where
  allowances : Dict String AgentAllowance := []
  default_allowance : AgentAllowance := DEFAULT_AGENT_ALLOWANCE
deriving DecidableEq, Repr

def BudgetPolicy.allowance_for (policy : BudgetPolicy) (subject : String) : AgentAllowance :=
  (policy.allowances.get? subject).getD policy.default_allowance

structure BrokerSettings where
  semantic_reuse_threshold : Rat := 9 / 10
  semantic_dupe_threshold : Rat := 9 / 10
  max_cards_per_retrieval : Nat := 5
  max_graph_neighbors : Nat := 100
  max_run_budget_tokens : Nat := 18000
  max_quote_chars : Nat := 600
deriving DecidableEq, Repr

structure SearchHit where
  artifact_id : Uuid
  score : Rat
deriving DecidableEq, Repr

/-- The broker's settings, and what it takes from outside: the platform, the search of a compiled
pattern, pydantic's dump of a card, the similarity of two normalized queries, and the search backend. -/
structure BrokerDeps where
  platform : Platform
  pattern_search : InjectionSignal → String → Bool
  model_dump_json : EvidenceCard → String
  similarity : String → String → Rat
  search : Database → String → Nat → Nat → List SearchHit
  settings : BrokerSettings := {}
  budget_policy : BudgetPolicy := {}

/-- Services to run the broker on small inputs: no text is suspicious, a card is dumped as its id, title and
summary, queries are similar if equal, and the search finds nothing. -/
def BrokerDeps.plain : BrokerDeps where
  platform := .plain
  pattern_search _ _ := false
  model_dump_json card := card.evidence_id ++ card.title ++ card.summary
  similarity a b := if a = b then 1 else 0
  search _ _ _ _ := []

theorem str_uuid_plain_injective : Platform.plain.str_uuid.Injective := by
  intro a b h
  have hrepr : Nat.repr a = Nat.repr b := h
  rw [Nat.repr_eq_ofList_toDigits, Nat.repr_eq_ofList_toDigits, String.ofList_inj] at hrepr
  have hvalue := congrArg (Nat.ofDigitChars 10 · 0) hrepr
  simp only [Nat.ofDigitChars_toDigits (b := 10) (by decide) (by decide)] at hvalue
  exact hvalue

/-- The union of the patterns that match one of the texts. -/
def scan_for_injection (deps : BrokerDeps) (texts : List String) : List InjectionSignal :=
  injection_signals.filter fun signal => texts.any (deps.pattern_search signal)

/-- The coarse kind of an artifact, from its own type or else its source's. -/
def derive_source_kind (source_type : SourceType) (artifact_type : ArtifactType) : SourceKind :=
  match artifact_type, source_type with
  | .code_file, _ | .code_symbol, _ | .endpoint, _ | .test, _ => .code
  | _, .github_code => .code
  | _, .ado_card => .card
  | .commit, _ => .pr
  | _, .git_metadata => .pr
  | _, .github_doc | _, .azure_wiki => .doc

/-- `superseded` once the source is deleted or the artifact has left the registry at some build. -/
def derive_state (row : ArtifactRow) : TemporalState :=
  if row.source_is_deleted || row.invalidated_at_seq.isSome then .superseded else .current

/-- The breakdown of one artifact's temporal weight. -/
structure TemporalWeight where
  source_kind : SourceKind
  state : TemporalState
  stale_for_intent : Bool
  weight : Rat
deriving DecidableEq, Repr

/-- The first line of a body, capped. -/
def card_summary (u : Unicode) (body : String) : String :=
  take_chars ((splitlines (strip u body)).headD "") 280

/-- `uri.split("://", 1)[1] if "://" in uri else uri`. -/
def after_scheme (uri : String) : String :=
  if contains uri "://" then String.ofList (uri.toList.drop ((before_first "://" uri).length + 3)) else uri

/-- A repo-relative path for a human citation. -/
def readable_path (source_uri : String) : String :=
  let rest := after_scheme source_uri
  if startswith source_uri "github://" && contains rest "/" then
    let after_owner := String.ofList (rest.toList.drop ((before_first "/" rest).length + 1))
    if contains after_owner "/" then
      String.ofList (after_owner.toList.drop ((before_first "/" after_owner).length + 1))
    else rest
  else rest

/-- `file:symbol` for a symbol, the path for anything else. -/
def display_citation (deps : BrokerDeps) (row : ArtifactRow) : String :=
  let path := readable_path row.source_uri
  let title := strip deps.platform.unicode (row.title.getD "")
  if (row.artifact_type == .code_symbol || row.artifact_type == .endpoint) && title != "" then
    if path != "" then path ++ ":" ++ title else title
  else if path != "" then path
  else if title != "" then title
  else deps.platform.str_uuid row.artifact_id

/-- `a or b` for strings: an empty one is false too. -/
def nonempty_or (text : Option String) (fallback : String) : String :=
  match text with
  | some text => if text = "" then fallback else text
  | none => fallback

/-- `min(max(score or 0.0, 0.0), 1.0)`. -/
def unit_score (score : Option Rat) : Rat := min (max (score.getD 0) 0) 1

def build_card (deps : BrokerDeps) (row : ArtifactRow) (temporal : Option TemporalWeight) : EvidenceCard :=
  let body := row.body_text.getD ""
  let title := nonempty_or row.title (deps.platform.str_uuid row.artifact_id)
  let summary := card_summary deps.platform.unicode body
  let signals := scan_for_injection deps [title, summary]
  { evidence_id := deps.platform.str_uuid row.artifact_id
    artifact_id := row.artifact_id
    card_type := row.artifact_type
    title
    summary
    source_uri := row.source_uri
    display_citation := display_citation deps row
    confidence := if row.knowledge_kind = some .source_backed then 1 else 1 / 2
    authority_score := unit_score row.authority_score
    tokens_if_expanded := estimate_tokens body
    injection_flagged := !signals.isEmpty
    injection_signals := signals
    source_kind := (temporal.map (·.source_kind)).getD (derive_source_kind row.source_type row.artifact_type)
    temporal_state := (temporal.map (·.state)).getD (derive_state row)
    stale_for_intent := (temporal.map (·.stale_for_intent)).getD false }

/-- What an agent pays for a card: its whole serialization. -/
def card_tokens (deps : BrokerDeps) (card : EvidenceCard) : Nat := estimate_tokens (deps.model_dump_json card)

@[simp] theorem build_card_artifact_id (deps : BrokerDeps) (row : ArtifactRow) (temporal : Option TemporalWeight) :
    (build_card deps row temporal).artifact_id = row.artifact_id := rfl

@[simp] theorem build_card_evidence_id (deps : BrokerDeps) (row : ArtifactRow) (temporal : Option TemporalWeight) :
    (build_card deps row temporal).evidence_id = deps.platform.str_uuid row.artifact_id := rfl

end ContextBroker

end AgenticKb

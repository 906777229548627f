import AgenticKb.ContextBroker.Cards
import AgenticKb.ContextBroker.ClaimLedger
import AgenticKb.ContextBroker.Provenance
import AgenticKb.ContextBroker.ReceiptSigning

open AgenticKb.Lib

namespace AgenticKb.ContextBroker

def REASON_NOT_FOUND : String := "evidence_not_found"
def REASON_WRONG_VERSION : String := "evidence_from_another_version"
def REASON_ACL_INVISIBLE : String := "evidence_acl_invisible"
def REASON_NOT_RETRIEVED : String := "evidence_not_retrieved_by_requester"
def REASON_STALE : String := "evidence_stale"
def REASON_TRUST : String := "evidence_supported_only_by_inferred_edge"
def REASON_BAD_ID : String := "evidence_id_not_a_valid_artifact_id"
def REASON_UNCITED : String := "claim_uncited"
def REASON_QUOTE_OVER_CAP : String := "quote_over_cap"
def REASON_QUOTE_NOT_FOUND : String := "quote_not_found"
def REASON_TYPED_FACT_UNSUPPORTED : String := "typed_fact_unsupported"
def REASON_ENTAILMENT_UNSUPPORTED : String := "entailment_unsupported"

def ENTAILMENT_PROMPT_VERSION : String := "entail-v1"

def VERIFY_TOOL_NAME : String := "context.verify_answer"

/-- The model behind the last level. It need not repeat itself: its verdict may depend on how many it gave before. -/
structure EntailmentClient where
  model_version : String
  check_entailment : Nat → String → List String → Bool

/-- What the verifier has beside the broker's services: the reading of an id, the clock, the entailment
model, the MAC and the value of the signing key's environment variable. -/
structure VerifierDeps extends BrokerDeps where
  parse_uuid : String → Option Uuid
  now : Timestamp
  entailment_client : Option EntailmentClient := none
  hmac_sha256 : Hmac
  signing_key : Option String := none

/-- `" ".join(value.split())`. -/
def normalize_whitespace (u : Unicode) (value : String) : String := join " " (runs (fun c => !u.is_space c) value)

def normalized_answer_hash (deps : VerifierDeps) (request : VerifyAnswerRequest) : String :=
  deps.platform.content_hash <| json_dumps <| .arr <|
    (sorted (fun (a b : ClaimInput) => str_le a.claim_id b.claim_id) request.claims).map fun claim =>
      .obj [
        ("claim_id", .str claim.claim_id),
        ("evidence_ids", .arr ((sorted str_le claim.evidence_ids.dedup).map .str)),
        ("text", .str (normalize_whitespace deps.platform.unicode claim.text))]

section Levels

/-- What the first level needs of the registry and the ledger. -/
structure EvidenceContext where
  in_version : Dict Uuid ProvenanceRow
  exists_anywhere : List Uuid
  acl_visible : List Uuid
  retrieved_by_requester : List Uuid
deriving DecidableEq, Repr

/-- The six checks of one cited id. -/
structure L0Result where
  «exists» : Bool
  in_active_version : Bool
  acl_visible : Bool
  in_requester_ledger : Bool
  not_stale : Bool
  supporting_trust_ok : Bool
deriving DecidableEq, Repr

/-- Every check passes. -/
def L0Result.passed (unit : L0Result) : Bool :=
  unit.exists && unit.in_active_version && unit.acl_visible && unit.in_requester_ledger && unit.not_stale &&
    unit.supporting_trust_ok

def L0Result.resolvable (unit : L0Result) : Bool :=
  unit.exists && unit.in_active_version && unit.acl_visible && unit.in_requester_ledger

def check_evidence (parse_uuid : String → Option Uuid) (ctx : EvidenceContext) (raw_id : String) :
    L0Result × List String :=
  match parse_uuid raw_id with
  | none => (⟨false, false, false, false, false, false⟩, [REASON_BAD_ID])
  | some artifact_id =>
    let row := ctx.in_version.get? artifact_id
    let in_active_version := row.isSome
    let result : L0Result :=
      { «exists» := in_active_version || ctx.exists_anywhere.contains artifact_id
        in_active_version
        acl_visible := ctx.acl_visible.contains artifact_id
        in_requester_ledger := ctx.retrieved_by_requester.contains artifact_id
        not_stale := row.any fun row => !row.source_is_deleted
        supporting_trust_ok := row.any fun row => row.has_extracted_edge || !row.has_any_edge }
    (result,
      (if !result.exists then [REASON_NOT_FOUND] else if !in_active_version then [REASON_WRONG_VERSION] else []) ++
      (if !result.acl_visible then [REASON_ACL_INVISIBLE] else []) ++
      (if !result.in_requester_ledger then [REASON_NOT_RETRIEVED] else []) ++
      (if in_active_version && !result.not_stale then [REASON_STALE] else []) ++
      (if in_active_version && !result.supporting_trust_ok then [REASON_TRUST] else []))

def merge_l0 (into other : L0Result) : L0Result :=
  { «exists» := into.exists && other.exists
    in_active_version := into.in_active_version && other.in_active_version
    acl_visible := into.acl_visible && other.acl_visible
    in_requester_ledger := into.in_requester_ledger && other.in_requester_ledger
    not_stale := into.not_stale && other.not_stale
    supporting_trust_ok := into.supporting_trust_ok && other.supporting_trust_ok }

/-- The levels that run, in their fixed order. -/
def resolve_levels (requested : List VerifierLevel) (l3_supported : Bool) : List VerifierLevel :=
  [.L0] ++ [.L1, .L2].filter requested.contains ++ if requested.contains .L3 && l3_supported then [.L3] else []

def quote_grounded (u : Unicode) (quote : String) (cited_texts : List String) : Bool :=
  let needle := normalize_whitespace u quote
  needle != "" && cited_texts.any fun body => contains (normalize_whitespace u body) needle

/-- Coverage, the cap on the quote and its guard, in this order; each is only held against a claim that
passed those before it. -/
def l1_coverage (deps : VerifierDeps) (claim : ClaimInput) (evidence : List L0Result) (cited_texts : List String) :
    Bool × List String :=
  let cited := evidence.any (·.resolvable)
  let quote_ok := claim.quote.all fun quote => decide (quote.length ≤ deps.settings.max_quote_chars)
  let grounded := match claim.quote with
    | some quote => if quote_ok && cited then quote_grounded deps.platform.unicode quote cited_texts else true
    | none => true
  (cited && quote_ok && grounded,
    (if !cited then [REASON_UNCITED] else []) ++ (if !quote_ok then [REASON_QUOTE_OVER_CAP] else []) ++
      if !grounded then [REASON_QUOTE_NOT_FOUND] else [])

/-- The cited ids that can be read. -/
def evidence_uuids (deps : VerifierDeps) (claim : ClaimInput) : List Uuid := claim.evidence_ids.filterMap deps.parse_uuid

/-- The cited ids that resolve to a unit the requester was given. -/
def cited_resolvable (deps : VerifierDeps) (resolvable_ids : List Uuid) (claim : ClaimInput) : List Uuid :=
  ((evidence_uuids deps claim).filter resolvable_ids.contains).dedup

end Levels

/-- The registry and the ledger as one request finds them: read once, before any claim is checked. -/
structure Evidence where
  graph_version : String
  is_active : Bool
  build_seq : Nat
  levels : List VerifierLevel
  ctx : EvidenceContext
  resolvable_ids : List Uuid
  cited_body_texts : Dict Uuid String
  l2_verdicts : Dict String Bool

section Resolve

variable (deps : VerifierDeps) (db : Database) (request : VerifyAnswerRequest) (requester : Requester)

/-- The verdict of a typed assertion against the claim's own citations. -/
def l2_verdict (build_seq : Nat) (resolvable_ids : List Uuid) (claim : ClaimInput) : Option Bool :=
  claim.assertion.map fun assertion => adjudicate_typed_fact deps.parse_uuid db assertion build_seq requester
    (cited_resolvable deps resolvable_ids claim)

def resolve_evidence (active : ActiveVersion) : Evidence :=
  let levels := resolve_levels request.verifier_levels deps.entailment_client.isSome
  let graph_version := nonempty_or request.graph_version active.kb_version
  let is_active := graph_version == active.kb_version
  let unique_ids := (request.claims.flatMap (evidence_uuids deps)).eraseDups
  let in_version := if is_active then fetch_provenance db unique_ids active.build_seq else []
  let retrieved := fetch_subject_retrieved_ids db requester.subject active.kb_version
  let visible := in_version.filter fun entry => acl_admits requester.teams entry.2.acl_teams
  let resolvable_ids := (visible.filter fun entry => retrieved.contains entry.1).map (·.1)
  { graph_version
    is_active
    build_seq := active.build_seq
    levels
    ctx :=
      { in_version
        exists_anywhere := fetch_existing_anywhere db unique_ids
        acl_visible := visible.map (·.1)
        retrieved_by_requester := retrieved }
    resolvable_ids
    cited_body_texts :=
      if levels.contains .L1 && is_active && !resolvable_ids.isEmpty then
        fetch_cited_body_texts deps.platform db resolvable_ids active.build_seq
      else []
    -- claims that share an id share one entry
    l2_verdicts :=
      if levels.contains .L2 && is_active then
        request.claims.foldl (fun d claim =>
          d.set_some claim.claim_id (l2_verdict deps db requester active.build_seq resolvable_ids claim)) []
      else [] }

end Resolve

/-- A claim after the levels that need no model. -/
structure DeterministicClaim where
  claim : ClaimInput
  merged : L0Result
  reasons : List String
  deterministic_passed : Bool
  l1_coverage : Option Bool
  l2_typed_fact : Option Bool
deriving DecidableEq, Repr

section Passes

variable (deps : VerifierDeps) (evidence : Evidence)

/-- The checks of every id a claim cites. -/
def evidence_results (claim : ClaimInput) : List (L0Result × List String) :=
  claim.evidence_ids.map (check_evidence deps.parse_uuid evidence.ctx)

def merged_l0 (claim : ClaimInput) : L0Result :=
  let results := (evidence_results deps evidence claim).map (·.1)
  results.tail.foldl merge_l0 <| results.head <| by simp [results, evidence_results, claim.evidence_ids_ne]

/-- The body texts of a claim's own resolvable citations. -/
def claim_cited_texts (claim : ClaimInput) : List String :=
  ((evidence_uuids deps claim).filter evidence.resolvable_ids.contains).filterMap evidence.cited_body_texts.get?

/-- The coverage level, where it runs. -/
def claim_l1 (claim : ClaimInput) : Option (Bool × List String) :=
  if evidence.levels.contains .L1 then
    some (l1_coverage deps claim ((evidence_results deps evidence claim).map (·.1))
      (claim_cited_texts deps evidence claim))
  else none

/-- The first pass over one claim. -/
def deterministic_claim (claim : ClaimInput) : DeterministicClaim :=
  let merged := merged_l0 deps evidence claim
  let l1 := claim_l1 deps evidence claim
  let l2_typed_fact :=
    if evidence.levels.contains .L2 then evidence.l2_verdicts.get? claim.claim_id else none
  { claim
    merged
    reasons := ((evidence_results deps evidence claim).flatMap (·.2)) ++ (l1.map (·.2)).getD [] ++
      if l2_typed_fact = some false then [REASON_TYPED_FACT_UNSUPPORTED] else []
    deterministic_passed := merged.passed && (l1.map (·.1)).getD true && l2_typed_fact.getD true
    l1_coverage := l1.map (·.1)
    l2_typed_fact }

def deterministic_pass (claims : List ClaimInput) : List DeterministicClaim :=
  claims.map (deterministic_claim deps evidence)

/-- An entailment verdict, and whether it was cached. -/
structure L3State where
  entailed : Bool
  cache_hit : Bool
deriving DecidableEq, Repr

/-- The cache and the calls made so far, with the verdicts by claim id. -/
structure L3Pass where
  entailment_cache : Dict EntailmentKey Bool
  llm_calls : Nat := 0
  l3_verdicts : Dict String L3State := []
deriving DecidableEq, Repr

def l3_eligible (entry : DeterministicClaim) : Bool := entry.deterministic_passed && entry.l2_typed_fact.isNone

/-- The last level runs for this claim. -/
def l3_runs (entry : DeterministicClaim) : Bool :=
  l3_eligible entry && !(cited_resolvable deps evidence.resolvable_ids entry.claim).isEmpty

def entailment_key (client : EntailmentClient) (claim_text : String) (cited_ids : List Uuid) : EntailmentKey :=
  { claim_hash := deps.platform.content_hash (normalize_whitespace deps.platform.unicode claim_text)
    evidence_ids_hash := deps.platform.content_hash (join "," (sorted str_le (cited_ids.map deps.platform.str_uuid)))
    prompt_version := ENTAILMENT_PROMPT_VERSION
    model_version := client.model_version }

/-- The verdict on one claim: from the cache, or else from the model over the cited bodies. -/
def run_l3_entailment (db : Database) (client : EntailmentClient) (state : L3Pass) (claim_text : String)
    (cited_ids : List Uuid) : L3State :=
  match state.entailment_cache.get? (entailment_key deps client claim_text cited_ids) with
  | some entailed => { entailed, cache_hit := true }
  | none =>
    let evidence_texts := ((fetch_artifacts deps.platform db cited_ids evidence.build_seq).filterMap (·.body_text)).filter
      (· != "")
    { entailed := client.check_entailment state.llm_calls claim_text evidence_texts, cache_hit := false }

/-- The second pass over one claim. -/
def l3_step (db : Database) (client : EntailmentClient) (state : L3Pass) (entry : DeterministicClaim) : L3Pass :=
  if l3_runs deps evidence entry then
    let cited_ids := cited_resolvable deps evidence.resolvable_ids entry.claim
    let outcome := run_l3_entailment deps evidence db client state entry.claim.text cited_ids
    { entailment_cache :=
        if outcome.cache_hit then state.entailment_cache
        else state.entailment_cache.setdefault (entailment_key deps client entry.claim.text cited_ids) outcome.entailed
      llm_calls := if outcome.cache_hit then state.llm_calls else state.llm_calls + 1
      -- claims that share an id share one entry here too
      l3_verdicts := state.l3_verdicts.set entry.claim.claim_id outcome }
  else state

/-- The client of the last level, where it runs at all. -/
def l3_client : Option EntailmentClient :=
  if evidence.levels.contains .L3 && evidence.is_active then deps.entailment_client else none

def l3_pass (db : Database) (entries : List DeterministicClaim) : L3Pass :=
  match l3_client deps evidence with
  | some client => entries.foldl (l3_step deps evidence db client) { entailment_cache := db.entailment_cache }
  | none => { entailment_cache := db.entailment_cache }

/-- The third pass over one claim. -/
def claim_receipt (l3_verdicts : Dict String L3State) (entry : DeterministicClaim) : ClaimReceipt :=
  let l3_entailment := (l3_verdicts.get? entry.claim.claim_id).map (·.entailed)
  { claim_id := entry.claim.claim_id
    result := if entry.deterministic_passed && l3_entailment.getD true then .passed else .failed
    checks :=
      { L0_exists := entry.merged.exists
        L0_in_active_version := entry.merged.in_active_version
        L0_acl_visible := entry.merged.acl_visible
        L0_in_requester_ledger := entry.merged.in_requester_ledger
        L0_not_stale := entry.merged.not_stale
        L0_supporting_trust_ok := entry.merged.supporting_trust_ok
        L1_coverage := entry.l1_coverage
        L2_typed_fact := entry.l2_typed_fact
        L3_entailment := l3_entailment }
    failed_reasons := (entry.reasons ++
      if l3_entailment = some false then [REASON_ENTAILMENT_UNSUPPORTED] else []).eraseDups }

def assemble_receipts (entries : List DeterministicClaim) (l3_verdicts : Dict String L3State) : List ClaimReceipt :=
  entries.map (claim_receipt l3_verdicts)

end Passes

def overall_result (claim_results : List ClaimReceipt) : OverallResult :=
  let passed_count := claim_results.countP fun r => r.result == .passed
  if passed_count = claim_results.length then .passed else if passed_count = 0 then .failed else .partly

section Answer

variable (deps : VerifierDeps) (db : Database) (request : VerifyAnswerRequest) (requester : Requester)
  (client_id : Option String)

/-- The receipt before it is signed. -/
def unsigned_receipt (evidence : Evidence) (claim_results : List ClaimReceipt) : VerificationReceipt :=
  { answer_hash := normalized_answer_hash deps request
    graph_version := evidence.graph_version
    issued_at := deps.now
    verifier_levels_run := evidence.levels
    overall := overall_result claim_results
    claim_results
    client_id }

/-- Signed, if the environment has a key. -/
def issue_receipt (receipt : VerificationReceipt) : VerificationReceipt :=
  match deps.signing_key with
  | some key => if key = "" then receipt else sign_receipt deps.hmac_sha256 key receipt
  | none => receipt

/-- The ledger row of a call that could not be served. -/
def error_event (tool_name : String) (query_text : Option String) : RetrievalEventInsert :=
  { run_id := NO_RUN_SENTINEL
    agent_name := requester.subject
    tool_name
    status := .error
    kb_version := NO_RUN_SENTINEL
    query_text }

/-- `context.verify_answer`: the receipt or the tool's error, and the database with the call's ledger row. -/
def verify_answer : Except String VerificationReceipt × Database :=
  match fetch_active_version db with
  | none =>
    (.error MSG_NO_ACTIVE_VERSION,
      { db with retrieval_events := db.retrieval_events ++
          [error_event requester VERIFY_TOOL_NAME (some request.answer_id)] })
  | some active =>
    let evidence := resolve_evidence deps db request requester active
    let entries := deterministic_pass deps evidence request.claims
    let l3 := l3_pass deps evidence db entries
    let claim_results := assemble_receipts entries l3.l3_verdicts
    (.ok (issue_receipt deps (unsigned_receipt deps request client_id evidence claim_results)),
      { db with
        entailment_cache := l3.entailment_cache
        retrieval_events := db.retrieval_events ++
          [{ run_id := NO_RUN_SENTINEL
             agent_name := requester.subject
             tool_name := VERIFY_TOOL_NAME
             status := .approved
             kb_version := evidence.graph_version
             query_text := some request.answer_id
             normalized_query := some (normalized_answer_hash deps request) }] })

end Answer

end AgenticKb.ContextBroker

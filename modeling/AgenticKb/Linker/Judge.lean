import AgenticKb.Linker.Candidates

open AgenticKb.Lib

namespace AgenticKb

def JUDGE_RELATION_TYPES : List String := ["documents"]

def JudgeTrustBucket.name : JudgeTrustBucket → String
  | .INFERRED_HIGH => "INFERRED_HIGH"
  | .INFERRED_LOW => "INFERRED_LOW"
  | .AMBIGUOUS => "AMBIGUOUS"
  | .REJECTED => "REJECTED"

def JudgeTrustBucket.trust_class : JudgeTrustBucket → TrustClass
  | .INFERRED_HIGH => .INFERRED_HIGH
  | .INFERRED_LOW => .INFERRED_LOW
  | .AMBIGUOUS => .AMBIGUOUS
  | .REJECTED => .REJECTED

def JUDGE_TRUST_BUCKETS : List JudgeTrustBucket := [.INFERRED_HIGH, .INFERRED_LOW, .AMBIGUOUS, .REJECTED]

/-- The bucket of a name, where it is in the vocabulary. -/
def judge_trust_bucket (name : String) : Option JudgeTrustBucket :=
  JUDGE_TRUST_BUCKETS.find? fun bucket => bucket.name == name

def INFERRED_EDGE_BUCKETS : List JudgeTrustBucket := [.INFERRED_HIGH, .INFERRED_LOW]

/-- The ruling a cached row stands for; a name outside the vocabularies fails its validation. -/
def RelationshipJudgmentCache.judgment (hit : RelationshipJudgmentCache) : Option RelationshipJudgment :=
  if JUDGE_RELATION_TYPES.contains hit.relation_type then
    (judge_trust_bucket hit.trust_bucket).map fun trust_bucket =>
      { trust_bucket, supporting_quote := hit.supporting_quote, reason := hit.reason }
  else none

/-- The row that is recorded for a ruling. -/
def RelationshipJudgment.cache_row (judgment : RelationshipJudgment) : RelationshipJudgmentCache :=
  { relation_type := "documents", trust_bucket := judgment.trust_bucket.name
    supporting_quote := judgment.supporting_quote, reason := judgment.reason }

@[simp] theorem judge_trust_bucket_name (bucket : JudgeTrustBucket) : judge_trust_bucket bucket.name = some bucket := by
  cases bucket with
  | INFERRED_HIGH => rfl
  | INFERRED_LOW => rfl
  | AMBIGUOUS => rfl
  | REJECTED => rfl

/-- A recorded ruling is read back as it was. -/
@[simp] theorem judgment_cache_row (judgment : RelationshipJudgment) : judgment.cache_row.judgment = some judgment := by
  simp [RelationshipJudgmentCache.judgment, RelationshipJudgment.cache_row, JUDGE_RELATION_TYPES]

def collapse_whitespace (u : Unicode) (text : String) : String :=
  join " " (runs (fun c => !u.is_space c) text)

/-- The quote is a verbatim span of one of the cited texts, up to whitespace. -/
def quote_is_grounded (u : Unicode) (quote : String) (cited_spans : List String) : Bool :=
  let needle := collapse_whitespace u quote
  needle ≠ "" && cited_spans.any fun span => contains (collapse_whitespace u span) needle

/-- An inferred ruling whose quote is not grounded becomes ambiguous. -/
def guard_quote (u : Unicode) (judgment : RelationshipJudgment) (cited_spans : List String) :
    RelationshipJudgment :=
  if INFERRED_EDGE_BUCKETS.contains judgment.trust_bucket &&
      !quote_is_grounded u judgment.supporting_quote cited_spans then
    { judgment with trust_bucket := .AMBIGUOUS }
  else judgment

/-- The two content hashes are sorted, so that the key does not depend on the pair's direction. -/
def relationship_judgment_cache_parts (hash_a hash_b model_version : String) : JudgmentCacheKey :=
  let (low, high) := if str_le hash_a hash_b then (hash_a, hash_b) else (hash_b, hash_a)
  { hash_a := low, hash_b := high, relation_schema_version := RELATION_SCHEMA_VERSION
    prompt_version := JUDGE_PROMPT_VERSION, model_version }

def judge_endpoint (p : Platform) (a : KnowledgeArtifact) : Option JudgeEndpoint :=
  match a.body_text.map p.body_string with
  | some body =>
    if body = "" then none
    else some
      { artifact_id := a.artifact_id
        title := if a.title.getD "" = "" then p.str_uuid a.artifact_id else a.title.getD ""
        evidence_text := body
        content_hash := p.content_hash body }
  | none => none

/-- The candidates of this label with both endpoints' text; a pair without text is skipped. -/
def load_candidates (p : Platform) (r : Registry) (kb_version : String) : List JudgeCandidate :=
  let rows := sorted (fun (a b : RelationshipCandidate) => a.from_artifact_id < b.from_artifact_id ||
      (a.from_artifact_id == b.from_artifact_id && a.to_artifact_id ≤ b.to_artifact_id))
    (r.candidates.filter fun row => row.kb_version == kb_version)
  rows.filterMap fun row => do
    let from_a ← r.artifacts.find? fun a => a.artifact_id == row.from_artifact_id
    let to_a ← r.artifacts.find? fun a => a.artifact_id == row.to_artifact_id
    some ⟨← judge_endpoint p from_a, ← judge_endpoint p to_a⟩

section Judge

variable (p : Platform) (kb_version : String) (valid_from_seq : Nat) (judge : RelationshipJudge)

/-- The ruling on one candidate: the cached one, or the model's, which is then cached. A cached row that is no
ruling raises. -/
def judgment_of (r : Registry) (cand : JudgeCandidate) : Option (Registry × RelationshipJudgment) :=
  let key := relationship_judgment_cache_parts cand.from_endpoint.content_hash
    cand.to_endpoint.content_hash (judge.model_name ++ "|" ++ judge.model_params_hash)
  match r.judgments.get? key with
  | some hit => hit.judgment.map fun judgment => (r, judgment)
  | none => do
    let judgment ← judge.generate_relationship_judgment cand
    some ({ r with judgments := r.judgments.setdefault key judgment.cache_row }, judgment)

variable {judge} in
/-- A ruling writes nothing but the cache. -/
theorem eq_of_judgment_of {r r' : Registry} {cand : JudgeCandidate} {judgment : RelationshipJudgment}
    (h : judgment_of judge r cand = some (r', judgment)) : ∃ judgments, r' = { r with judgments } := by
  unfold judgment_of at h
  dsimp only at h
  split at h
  · rw [Option.map_eq_some_iff] at h
    obtain ⟨_, -, heq⟩ := h
    exact ⟨r.judgments, (Prod.mk.inj heq).1.symm⟩
  · simp only [Option.bind_eq_bind, Option.bind_eq_some_iff, Option.some.injEq, Prod.mk.injEq] at h
    obtain ⟨ruling, -, rfl, -⟩ := h
    exact ⟨_, rfl⟩

/-- The ruling after the quote guard at the edge-writing boundary. -/
def guarded (cand : JudgeCandidate) (judgment : RelationshipJudgment) : RelationshipJudgment :=
  guard_quote p.unicode judgment [cand.from_endpoint.evidence_text, cand.to_endpoint.evidence_text]

def JudgeCandidate.key (cand : JudgeCandidate) : Uuid × Uuid × EdgeType :=
  (cand.from_endpoint.artifact_id, cand.to_endpoint.artifact_id, .documents)

def evidence_pointer (judgment : RelationshipJudgment) : Evidence :=
  .quote judgment.supporting_quote JUDGE_PROMPT_VERSION

def upsert_judge_edge (r : Registry) (cand : JudgeCandidate) (judgment : RelationshipJudgment) :
    Option Registry :=
  upsert_edge p r .llm_judge cand.key
    (fun edge_id =>
      { edge_id
        from_artifact_id := cand.from_endpoint.artifact_id
        to_artifact_id := cand.to_endpoint.artifact_id
        edge_type := .documents
        confidence := none
        source := some .llm_judge
        kb_version
        valid_from_seq
        trust_class := judgment.trust_bucket.trust_class
        relation_schema_version := RELATION_SCHEMA_VERSION
        evidence := .bind (some (evidence_pointer judgment)) })
    fun e =>
      { e with
        trust_class := judgment.trust_bucket.trust_class
        kb_version
        relation_schema_version := RELATION_SCHEMA_VERSION
        evidence := .bind (some (evidence_pointer judgment))
        invalidated_at_seq := none }

/-- Rule on one candidate. A rejected pair gets no edge; every other pair's link is `computed`. -/
def judge_candidate (state : Registry × List (Uuid × Uuid × EdgeType)) (cand : JudgeCandidate) :
    Option (Registry × List (Uuid × Uuid × EdgeType)) := do
  let (r, computed) := state
  let (r, judgment) ← judgment_of judge r cand
  let judgment := guarded p cand judgment
  if judgment.trust_bucket == .REJECTED then some (r, computed)
  else
    let r ← upsert_judge_edge p kb_version valid_from_seq r cand judgment
    some (r, computed ++ [cand.key])

/-- Judge this label's candidates and retire the judge edges no longer inferred. Without a candidate
nothing is retired, so that a failed load cannot empty the judge's graph. -/
def run_judge (r : Registry) : Option Registry := do
  let candidates := load_candidates p r kb_version
  let (r, computed) ← candidates.foldlM (judge_candidate p kb_version valid_from_seq judge) (r, [])
  some <| if candidates.isEmpty then r
    else retire_edges r valid_from_seq fun e =>
      e.source == some .llm_judge && !computed.contains e.key

end Judge

end AgenticKb

import AgenticKb.Effects.Links
import AgenticKb.Linker.ChatModel
import AgenticKb.Lib.Run
import AgenticKb.Properties.JudgeCache

open AgenticKb.Lib

namespace AgenticKb

/-- The verdict a cached row holds. -/
def RelationshipJudgmentCache.verdict (hit : RelationshipJudgmentCache) : Verdict :=
  { relation_type := some hit.relation_type, trust_bucket := some hit.trust_bucket
    supporting_quote := hit.supporting_quote, reason := hit.reason }

/-- A verdict within the judge's vocabulary, and its bucket. -/
def Verdict.Names (verdict : Verdict) (bucket : JudgeTrustBucket) : Prop :=
  (∃ relation ∈ verdict.relation_type, relation ∈ JUDGE_RELATION_TYPES) ∧ verdict.trust_bucket = some bucket.name

section Verdicts

variable {u : Unicode} {verdict : Verdict} {bucket : JudgeTrustBucket} {spans : List String}

theorem judge_trust_bucket_some {name : String} (h : judge_trust_bucket name = some bucket) : bucket.name = name := by
  simpa using List.find?_some h

/-- Every bucket but the ambiguous one is the bucket of a verdict within the vocabulary. -/
theorem names_of_judgment (h : verdict.judgment.trust_bucket = bucket) (hclear : bucket ≠ .AMBIGUOUS) :
    verdict.Names bucket := by
  unfold Verdict.judgment at h
  dsimp only at h
  split at h
  case isFalse => exact absurd h.symm hclear
  case isTrue hknown =>
    obtain ⟨relation, hrelation, hmem⟩ := (Option.any_eq_true _ _).1 hknown
    refine ⟨⟨relation, hrelation, by simpa using hmem⟩, ?_⟩
    cases hname : verdict.trust_bucket with
    | none =>
      rw [hname] at h
      exact absurd h.symm hclear
    | some name =>
      rw [hname, Option.bind_some] at h
      cases hread : judge_trust_bucket name with
      | none =>
        rw [hread] at h
        exact absurd h.symm hclear
      | some read =>
        rw [hread] at h
        rw [← judge_trust_bucket_some hread, ← h]
        rfl

theorem judgment_of_names (h : verdict.Names bucket) : verdict.judgment.trust_bucket = bucket := by
  obtain ⟨⟨relation, hrelation, hmem⟩, hname⟩ := h
  have hknown : verdict.relation_type.any JUDGE_RELATION_TYPES.contains = true :=
    (Option.any_eq_true _ _).2 ⟨relation, hrelation, by simpa using hmem⟩
  simp [Verdict.judgment, hknown, hname]

/-- A cached row is read as the verdict it holds. -/
theorem judgment_verdict {hit : RelationshipJudgmentCache} {judgment : RelationshipJudgment}
    (h : hit.judgment = some judgment) : hit.verdict.judgment = judgment := by
  unfold RelationshipJudgmentCache.judgment at h
  split at h
  · rename_i hrelation
    rw [Option.map_eq_some_iff] at h
    obtain ⟨bucket, hbucket, rfl⟩ := h
    have hknown : (some hit.relation_type).any JUDGE_RELATION_TYPES.contains = true := hrelation
    simp only [Verdict.judgment, RelationshipJudgmentCache.verdict, hknown, if_true, Option.bind_some, hbucket,
      Option.getD_some]
  · cases h

/-- A ruling that is its verdict's, but for a guard it went through. -/
structure RulesOn (judgment : RelationshipJudgment) (verdict : Verdict) : Prop where
  quote : judgment.supporting_quote = verdict.supporting_quote
  clear : judgment.trust_bucket ≠ .AMBIGUOUS → verdict.judgment.trust_bucket = judgment.trust_bucket
  rejected : verdict.judgment.trust_bucket = .REJECTED → judgment.trust_bucket = .REJECTED

theorem RulesOn.refl (verdict : Verdict) : RulesOn verdict.judgment verdict := ⟨rfl, fun _ => rfl, fun h => h⟩

theorem RulesOn.guard {judgment : RelationshipJudgment} (h : RulesOn judgment verdict) :
    RulesOn (guard_quote u judgment spans) verdict := by
  unfold guard_quote
  split
  · rename_i hguard
    refine ⟨h.quote, fun hclear => absurd rfl hclear, fun hrejected => ?_⟩
    rw [h.rejected hrejected] at hguard
    cases hguard
  · exact h

/-- What is inferred after the guard has its quote in one of the texts. -/
theorem grounded_of_guard {judgment : RelationshipJudgment}
    (h : (guard_quote u judgment spans).trust_bucket ∈ INFERRED_EDGE_BUCKETS) :
    collapse_whitespace u judgment.supporting_quote ≠ "" ∧
      ∃ span ∈ spans, contains (collapse_whitespace u span) (collapse_whitespace u judgment.supporting_quote) = true := by
  unfold guard_quote at h
  split at h
  · cases h with
    | tail _ h => cases h with
      | tail _ h => cases h
  · rename_i hguard
    have hinferred : INFERRED_EDGE_BUCKETS.contains judgment.trust_bucket = true := by simpa using h
    rw [hinferred, Bool.true_and, Bool.not_eq_true', Bool.not_eq_false] at hguard
    unfold quote_is_grounded at hguard
    simpa using hguard

end Verdicts

/-- The cache row a pair is looked up under. -/
def JudgeCandidate.cache_key (cand : JudgeCandidate) (client : ChatModelClient) : JudgmentCacheKey :=
  relationship_judgment_cache_parts cand.from_endpoint.content_hash cand.to_endpoint.content_hash
    (client.model_name ++ "|" ++ client.model_params_hash)

section Given

variable (u : Unicode) (client : ChatModelClient) (judgments : Dict JudgmentCacheKey RelationshipJudgmentCache)

/-- The verdict on a pair: that of its cache row, or else the model's on the first pair that was looked up under it. -/
def verdict_given (asked : List JudgeCandidate) (cand : JudgeCandidate) : Option Verdict :=
  match judgments.get? (cand.cache_key client) with
  | some hit => some hit.verdict
  | none => do
    let first ← asked.find? fun other => other.cache_key client == cand.cache_key client
    let raw ← client.sample u first 0 MAX_PARSE_ATTEMPTS
    client.parse_verdict u raw

/-- Pairs looked up later do not change it. -/
theorem verdict_given_append {asked more : List JudgeCandidate} {cand : JudgeCandidate} (hcand : cand ∈ asked) :
    verdict_given u client judgments (asked ++ more) cand = verdict_given u client judgments asked cand := by
  unfold verdict_given
  have hfound : (asked.find? fun other => other.cache_key client == cand.cache_key client).isSome :=
    List.find?_isSome.2 ⟨cand, hcand, beq_self_eq_true _⟩
  rw [List.find?_append, Option.or_of_isSome hfound]

/-- The model's answer is its verdict, guarded. -/
theorem generate_eq (cand : JudgeCandidate) :
    client.generate_relationship_judgment u cand =
      ((client.sample u cand 0 MAX_PARSE_ATTEMPTS).bind (client.parse_verdict u)).map fun verdict =>
        guard_quote u verdict.judgment [cand.from_endpoint.evidence_text, cand.to_endpoint.evidence_text] := by
  unfold ChatModelClient.generate_relationship_judgment ChatModelClient.parse_judgment
  cases client.sample u cand 0 MAX_PARSE_ATTEMPTS with
  | none => rfl
  | some raw =>
    simp only [Option.bind_eq_bind, Option.bind_some]
    cases client.parse_verdict u raw with
    | none => rfl
    | some verdict => rfl

/-- The cache after some pairs: the rows it held, and those of the model's answers on the pairs asked first. -/
structure CachedAfter (asked : List JudgeCandidate) (now : Dict JudgmentCacheKey RelationshipJudgmentCache) : Prop where
  rows : ∀ key, now.get? key = (judgments.get? key).or
    ((asked.find? fun other => other.cache_key client == key).bind fun first =>
      (client.generate_relationship_judgment u first).map RelationshipJudgment.cache_row)
  answered : ∀ cand ∈ asked, (now.get? (cand.cache_key client)).isSome

end Given

section Judged

variable {p : Platform} {client : ChatModelClient} {kb_version : String} {n : Nat} {r r' s : Registry}
  {asked : List JudgeCandidate} {cand : JudgeCandidate} {judgment : RelationshipJudgment}

private theorem find?_asked (key : JudgmentCacheKey) : (asked ++ [cand]).find? (fun other => other.cache_key client == key) =
    (asked.find? fun other => other.cache_key client == key).or (if cand.cache_key client = key then some cand else none) := by
  rw [List.find?_append]
  by_cases hkey : cand.cache_key client = key
  · simp [hkey]
  · simp [hkey]

/-- A pair found in the cache rests on the verdict its row came from. -/
theorem cached_ruling (hcache : CachedAfter p.unicode client r.judgments asked s.judgments) {hit : RelationshipJudgmentCache}
    (hhit : s.judgments.get? (cand.cache_key client) = some hit) (hread : hit.judgment = some judgment) :
    (∃ verdict, verdict_given p.unicode client r.judgments (asked ++ [cand]) cand = some verdict ∧ RulesOn judgment verdict) ∧
      CachedAfter p.unicode client r.judgments (asked ++ [cand]) s.judgments := by
  have hrow := hcache.rows (cand.cache_key client)
  rw [hhit] at hrow
  constructor
  · unfold verdict_given
    cases hold : r.judgments.get? (cand.cache_key client) with
    | some old =>
      rw [hold, Option.some_or] at hrow
      obtain rfl := Option.some.inj hrow
      exact ⟨hit.verdict, rfl, judgment_verdict hread ▸ .refl _⟩
    | none =>
      rw [hold, Option.none_or, eq_comm, Option.bind_eq_some_iff] at hrow
      obtain ⟨first, hfirst, hanswer⟩ := hrow
      obtain ⟨answer, hfresh, rfl⟩ := Option.map_eq_some_iff.1 hanswer
      rw [judgment_cache_row] at hread
      obtain rfl := Option.some.inj hread
      rw [generate_eq, Option.map_eq_some_iff] at hfresh
      obtain ⟨verdict, hverdict, rfl⟩ := hfresh
      refine ⟨verdict, ?_, (RulesOn.refl verdict).guard⟩
      simp only [find?_asked, hfirst, Option.some_or, Option.bind_eq_bind, Option.bind_some]
      exact hverdict
  · constructor
    · intro key
      rw [hcache.rows key, find?_asked]
      by_cases hkey : cand.cache_key client = key
      · -- the row is there, so that this pair is not the one that fills it
        rw [if_pos hkey]
        cases hold : r.judgments.get? key with
        | some old => rfl
        | none =>
          rw [← hkey] at hold ⊢
          rw [hold, Option.none_or] at hrow
          cases hfirst : asked.find? fun other => other.cache_key client == cand.cache_key client with
          | some first => rfl
          | none =>
            rw [hfirst] at hrow
            cases hrow
      · rw [if_neg hkey, Option.or_none]
    · intro other hother
      cases List.mem_append.1 hother with
      | inl hbefore => exact hcache.answered other hbefore
      | inr hlast =>
        rw [List.mem_singleton.1 hlast, hhit]
        rfl

/-- A pair not found there rests on the verdict the model then gives, and fills the row. -/
theorem fresh_ruling (hcache : CachedAfter p.unicode client r.judgments asked s.judgments)
    (hmiss : s.judgments.get? (cand.cache_key client) = none)
    (hanswer : client.generate_relationship_judgment p.unicode cand = some judgment) :
    (∃ verdict, verdict_given p.unicode client r.judgments (asked ++ [cand]) cand = some verdict ∧ RulesOn judgment verdict) ∧
      CachedAfter p.unicode client r.judgments (asked ++ [cand])
        (s.judgments.setdefault (cand.cache_key client) judgment.cache_row) := by
  have hrow := hcache.rows (cand.cache_key client)
  rw [hmiss, eq_comm, Option.or_eq_none_iff] at hrow
  have hnew : (asked.find? fun other => other.cache_key client == cand.cache_key client) = none := by
    rw [List.find?_eq_none]
    intro other hother hkey
    have hanswered := hcache.answered other hother
    rw [beq_iff_eq.1 hkey, hmiss] at hanswered
    cases hanswered
  constructor
  · have hgiven := hanswer
    rw [generate_eq, Option.map_eq_some_iff] at hgiven
    obtain ⟨verdict, hverdict, rfl⟩ := hgiven
    refine ⟨verdict, ?_, (RulesOn.refl verdict).guard⟩
    unfold verdict_given
    rw [hrow.1]
    simp only [find?_asked, hnew, Option.none_or, if_true, Option.bind_eq_bind, Option.bind_some]
    exact hverdict
  · constructor
    · intro key
      rw [Dict.get?_setdefault, hmiss, find?_asked]
      by_cases hkey : key = cand.cache_key client
      · rw [if_pos hkey, hkey, hrow.1, hnew, Option.none_or, Option.none_or, if_pos rfl, Option.bind_some, hanswer]
        rfl
      · rw [if_neg hkey, if_neg fun h => hkey h.symm, Option.or_none, hcache.rows key]
    · intro other hother
      rw [Dict.get?_setdefault]
      split
      · rfl
      · rename_i hkey
        cases List.mem_append.1 hother with
        | inl hbefore => exact hcache.answered other hbefore
        | inr hlast => exact absurd (congrArg (JudgeCandidate.cache_key · client) (List.mem_singleton.1 hlast)) hkey

/-- One ruling: it rests on the verdict given on the pair, and the cache goes on holding the answers. -/
theorem ruled_on_verdict (hcache : CachedAfter p.unicode client r.judgments asked s.judgments)
    (h : judgment_of (client.judge p.unicode) s cand = some (r', judgment)) :
    (∃ verdict, verdict_given p.unicode client r.judgments (asked ++ [cand]) cand = some verdict ∧ RulesOn judgment verdict) ∧
      CachedAfter p.unicode client r.judgments (asked ++ [cand]) r'.judgments := by
  unfold judgment_of at h
  change (match s.judgments.get? (cand.cache_key client) with | some hit => _ | none => _) = _ at h
  cases hget : s.judgments.get? (cand.cache_key client) with
  | some hit =>
    rw [hget] at h
    obtain ⟨read, hread, heq⟩ := Option.map_eq_some_iff.1 h
    obtain ⟨rfl, rfl⟩ := Prod.mk.inj heq
    exact cached_ruling hcache hget hread
  | none =>
    rw [hget] at h
    simp only [Option.bind_eq_bind, Option.bind_eq_some_iff, Option.some.injEq, Prod.mk.injEq] at h
    obtain ⟨answer, hanswer, rfl, rfl⟩ := h
    exact fresh_ruling hcache hget hanswer

/-- The side of a pair is an artifact with the text it shows. -/
theorem judge_endpoint_some {a : KnowledgeArtifact} {endpoint : JudgeEndpoint} (h : judge_endpoint p a = some endpoint) :
    endpoint.artifact_id = a.artifact_id ∧ a.body_text.map p.body_string = some endpoint.evidence_text := by
  unfold judge_endpoint at h
  split at h
  · rename_i body hbody
    split at h
    · cases h
    · obtain rfl := Option.some.inj h
      exact ⟨rfl, hbody⟩
  · cases h

theorem load_candidates_ends (hcand : cand ∈ load_candidates p r kb_version) :
    ((r.artifacts.find? fun a => a.artifact_id == cand.from_endpoint.artifact_id).bind (judge_endpoint p) =
        some cand.from_endpoint) ∧
      (r.artifacts.find? fun a => a.artifact_id == cand.to_endpoint.artifact_id).bind (judge_endpoint p) =
        some cand.to_endpoint := by
  simp only [load_candidates, List.mem_filterMap, Option.bind_eq_bind, Option.bind_eq_some_iff, Option.some.injEq] at hcand
  obtain ⟨row, -, from_a, hfrom_a, to_a, hto_a, from_endpoint, hfrom, to_endpoint, hto, rfl⟩ := hcand
  have hfrom_id : from_a.artifact_id = row.from_artifact_id := by simpa using List.find?_some hfrom_a
  have hto_id : to_a.artifact_id = row.to_artifact_id := by simpa using List.find?_some hto_a
  constructor
  · rw [(judge_endpoint_some hfrom).1, hfrom_id, hfrom_a, Option.bind_some, hfrom]
  · rw [(judge_endpoint_some hto).1, hto_id, hto_a, Option.bind_some, hto]

/-- The link of a pair tells which pair it is. -/
theorem load_candidates_key {other : JudgeCandidate} (hcand : cand ∈ load_candidates p r kb_version)
    (hother : other ∈ load_candidates p r kb_version) (hkey : cand.key = other.key) : cand = other := by
  have hids := Prod.mk.inj hkey
  have hends := load_candidates_ends hcand
  have hends' := load_candidates_ends hother
  rw [hids.1, (Prod.mk.inj hids.2).1] at hends
  have hfrom := Option.some.inj (hends.1.symm.trans hends'.1)
  have hto := Option.some.inj (hends.2.symm.trans hends'.2)
  cases cand
  cases other
  exact congrArg₂ JudgeCandidate.mk hfrom hto

/-- The quote is not blank, and up to whitespace it occurs in the body of an end of the edge. -/
def QuotedFrom (p : Platform) (r : Registry) (e : KnowledgeEdge) (quote : String) : Prop :=
  collapse_whitespace p.unicode quote ≠ "" ∧ ∃ a ∈ r.artifacts,
    (a.artifact_id = e.from_artifact_id ∨ a.artifact_id = e.to_artifact_id) ∧
    ∃ body, a.body_text.map p.body_string = some body ∧
      contains (collapse_whitespace p.unicode body) (collapse_whitespace p.unicode quote) = true

/-- An edge written for a verdict: it carries the verdict's quote, and it is ambiguous unless the verdict is within the
vocabulary, infers the relation and quotes an end. -/
structure JudgedEdge (p : Platform) (r : Registry) (cand : JudgeCandidate) (verdict : Verdict) (e : KnowledgeEdge) :
    Prop where
  link : e.key = cand.key
  evidence : e.evidence = .object (.quote verdict.supporting_quote JUDGE_PROMPT_VERSION)
  kept : ¬ verdict.Names .REJECTED
  bucket : e.trust_class = .AMBIGUOUS ∨ ∃ bucket ∈ INFERRED_EDGE_BUCKETS, e.trust_class = bucket.trust_class ∧
    verdict.Names bucket ∧ QuotedFrom p r e verdict.supporting_quote

theorem JudgedEdge.not_extracted {verdict : Verdict} {e : KnowledgeEdge} (h : JudgedEdge p r cand verdict e) :
    e.trust_class ≠ .EXTRACTED := by
  cases h.bucket with
  | inl hambiguous => simp [hambiguous]
  | inr hinferred =>
    obtain ⟨bucket, -, htrust, -⟩ := hinferred
    rw [htrust]
    cases bucket with
    | INFERRED_HIGH => simp [JudgeTrustBucket.trust_class]
    | INFERRED_LOW => simp [JudgeTrustBucket.trust_class]
    | AMBIGUOUS => simp [JudgeTrustBucket.trust_class]
    | REJECTED => simp [JudgeTrustBucket.trust_class]

/-- What is written for a ruling, whatever row it is written to. -/
theorem judgedEdge_of_ruling {verdict : Verdict} (hcand : cand ∈ load_candidates p r kb_version)
    (hrules : RulesOn judgment verdict) (hkept : (guarded p cand judgment).trust_bucket ≠ .REJECTED) {e : KnowledgeEdge}
    (hkey : e.key = cand.key) (htrust : e.trust_class = (guarded p cand judgment).trust_bucket.trust_class)
    (hevidence : e.evidence = .object (evidence_pointer (guarded p cand judgment))) : JudgedEdge p r cand verdict e := by
  have hguarded : RulesOn (guarded p cand judgment) verdict := hrules.guard
  refine ⟨hkey, ?_, fun hnames => hkept (hguarded.rejected (judgment_of_names hnames)), ?_⟩
  · rw [hevidence, evidence_pointer, hguarded.quote]
  · by_cases hinferred : (guarded p cand judgment).trust_bucket ∈ INFERRED_EDGE_BUCKETS
    · have hclear : (guarded p cand judgment).trust_bucket ≠ .AMBIGUOUS := by
        intro hambiguous
        rw [hambiguous] at hinferred
        simp [INFERRED_EDGE_BUCKETS] at hinferred
      obtain ⟨hblank, span, hspan, hfound⟩ := grounded_of_guard hinferred
      rw [hrules.quote] at hblank hfound
      have hids := Prod.mk.inj hkey
      obtain ⟨hfrom, hto⟩ := load_candidates_ends hcand
      refine .inr ⟨_, hinferred, htrust, names_of_judgment (hguarded.clear hclear) hclear, hblank, ?_⟩
      simp only [List.mem_cons, List.not_mem_nil, or_false] at hspan
      cases hspan with
      | inl heq =>
        obtain ⟨a, ha, hend⟩ := Option.bind_eq_some_iff.1 hfrom
        obtain ⟨hid, hbody⟩ := judge_endpoint_some hend
        exact ⟨a, List.mem_of_find?_eq_some ha, .inl (hid.symm.trans hids.1.symm), span, heq ▸ hbody, hfound⟩
      | inr heq =>
        obtain ⟨a, ha, hend⟩ := Option.bind_eq_some_iff.1 hto
        obtain ⟨hid, hbody⟩ := judge_endpoint_some hend
        exact ⟨a, List.mem_of_find?_eq_some ha, .inr (hid.symm.trans (Prod.mk.inj hids.2).1.symm), span, heq ▸ hbody, hfound⟩
    · left
      rw [htrust]
      cases hbucket : (guarded p cand judgment).trust_bucket with
      | INFERRED_HIGH => simp [hbucket, INFERRED_EDGE_BUCKETS] at hinferred
      | INFERRED_LOW => simp [hbucket, INFERRED_EDGE_BUCKETS] at hinferred
      | AMBIGUOUS => rfl
      | REJECTED => exact absurd hbucket hkept

/-- The rows after one ruling is written: those of its link, and the others as they were. -/
theorem upsert_judge_edge_rows (h : upsert_judge_edge p kb_version n s cand judgment = some r') {e : KnowledgeEdge}
    (he : e ∈ r'.edges) :
    (IsLink .llm_judge cand.key e ∧ e.invalidated_at_seq = none ∧ e.trust_class = judgment.trust_bucket.trust_class ∧
      e.evidence = .object (evidence_pointer judgment)) ∨ (e ∈ s.edges ∧ ¬ IsLink .llm_judge cand.key e) := by
  unfold upsert_judge_edge at h
  cases upsert_edge_cases h with
  | inl hrewritten =>
    obtain ⟨-, rfl⟩ := hrewritten
    obtain ⟨old, hold, rfl⟩ := List.mem_map.1 he
    by_cases hlink : IsLink .llm_judge cand.key old
    · rw [if_pos (decide_eq_true hlink)]
      exact .inl ⟨hlink, rfl, rfl, rfl⟩
    · rw [if_neg (by simpa using hlink)]
      exact .inr ⟨hold, hlink⟩
  | inr hadded =>
    obtain ⟨hnone, rfl⟩ := hadded
    cases List.mem_append.1 he with
    | inl hold => exact .inr ⟨hold, hnone e hold⟩
    | inr hnew =>
      rw [List.mem_singleton.1 hnew]
      exact .inl ⟨⟨rfl, rfl⟩, rfl, rfl, rfl⟩

/-- The pass after some pairs. -/
structure JudgedSoFar (p : Platform) (client : ChatModelClient) (r : Registry) (asked : List JudgeCandidate)
    (state : Registry × List (Uuid × Uuid × EdgeType)) : Prop where
  cache : CachedAfter p.unicode client r.judgments asked state.1.judgments
  edges : ∀ e ∈ state.1.edges, e.source = some .llm_judge →
    (e.key ∈ state.2 ∧ e.invalidated_at_seq = none ∧ ∃ cand ∈ asked, ∃ verdict,
      verdict_given p.unicode client r.judgments asked cand = some verdict ∧ JudgedEdge p r cand verdict e) ∨
    (e.key ∉ state.2 ∧ e ∈ r.edges)

theorem JudgedSoFar.judge_candidate {state state' : Registry × List (Uuid × Uuid × EdgeType)}
    (h : JudgedSoFar p client r asked state) (hcand : cand ∈ load_candidates p r kb_version)
    (hstep : judge_candidate p kb_version n (client.judge p.unicode) state cand = some state') :
    JudgedSoFar p client r (asked ++ [cand]) state' := by
  have hold : ∀ e : KnowledgeEdge, (∃ cand ∈ asked, ∃ verdict,
      verdict_given p.unicode client r.judgments asked cand = some verdict ∧ JudgedEdge p r cand verdict e) →
      ∃ earlier ∈ asked ++ [cand], ∃ verdict,
        verdict_given p.unicode client r.judgments (asked ++ [cand]) earlier = some verdict ∧
          JudgedEdge p r earlier verdict e := by
    intro e ⟨earlier, hearlier, verdict, hverdict, hjudged⟩
    refine ⟨earlier, List.mem_append_left _ hearlier, verdict, ?_, hjudged⟩
    rw [verdict_given_append _ _ _ hearlier, hverdict]
  simp only [AgenticKb.judge_candidate, Option.bind_eq_bind, Option.bind_eq_some_iff, Prod.exists] at hstep
  obtain ⟨ruled, judgment, hruling, hstep⟩ := hstep
  obtain ⟨⟨verdict, hverdict, hrules⟩, hcache⟩ := ruled_on_verdict h.cache hruling
  obtain ⟨judgments, hruled⟩ := eq_of_judgment_of hruling
  have hedges : ruled.edges = state.1.edges := by rw [hruled]
  split at hstep
  case isTrue hrejected =>
    obtain rfl := Option.some.inj hstep
    refine ⟨hcache, fun e he hsource => ?_⟩
    cases h.edges e (hedges ▸ he) hsource with
    | inl hwritten => exact .inl ⟨hwritten.1, hwritten.2.1, hold e hwritten.2.2⟩
    | inr hkept => exact .inr hkept
  case isFalse hkept =>
    simp only [Option.bind_eq_some_iff, Option.some.injEq] at hstep
    obtain ⟨written, hwrite, rfl⟩ := hstep
    have hjudgments : written.judgments = ruled.judgments := by
      cases upsert_edge_cases hwrite with
      | inl hrewritten => rw [hrewritten.2]
      | inr hadded => rw [hadded.2]; rfl
    refine ⟨hjudgments ▸ hcache, fun e he hsource => ?_⟩
    cases upsert_judge_edge_rows hwrite he with
    | inl hnew =>
      obtain ⟨hlink, hlive, htrust, hevidence⟩ := hnew
      have hbucket : (guarded p cand judgment).trust_bucket ≠ .REJECTED := by simpa using hkept
      refine .inl ⟨?_, hlive, cand, List.mem_append_right _ List.mem_cons_self, verdict, hverdict,
        judgedEdge_of_ruling hcand hrules hbucket hlink.2 htrust hevidence⟩
      rw [hlink.2]
      exact List.mem_append_right _ List.mem_cons_self
    | inr hother =>
      obtain ⟨hmem, hlink⟩ := hother
      have hkey : e.key ≠ cand.key := fun hkey => hlink ⟨hsource, hkey⟩
      cases h.edges e (hedges ▸ hmem) hsource with
      | inl hwritten =>
        exact .inl ⟨List.mem_append_left _ hwritten.1, hwritten.2.1, hold e hwritten.2.2⟩
      | inr hkept =>
        refine .inr ⟨fun hcomputed => ?_, hkept.2⟩
        cases List.mem_append.1 hcomputed with
        | inl hbefore => exact hkept.1 hbefore
        | inr hlast => exact hkey (List.mem_singleton.1 hlast)

/-- What the judge's pass leaves: the live judge edges are those it wrote for the verdicts given on its candidates, and
the others are rows it found, retired or left alone. -/
structure JudgedByVerdicts (p : Platform) (client : ChatModelClient) (kb_version : String) (r r' : Registry) : Prop where
  untouched : load_candidates p r kb_version = [] → r'.edges = r.edges
  live : load_candidates p r kb_version ≠ [] → ∀ e ∈ r'.edges, e.source = some .llm_judge → e.invalidated_at_seq = none →
    ∃ cand ∈ load_candidates p r kb_version, ∃ verdict,
      verdict_given p.unicode client r.judgments (load_candidates p r kb_version) cand = some verdict ∧
        JudgedEdge p r cand verdict e
  retired : ∀ e ∈ r'.edges, e.source = some .llm_judge → e.invalidated_at_seq ≠ none →
    ∃ old ∈ r.edges, e = { old with invalidated_at_seq := e.invalidated_at_seq }
  rejected : ∀ cand ∈ load_candidates p r kb_version, ∀ verdict,
    verdict_given p.unicode client r.judgments (load_candidates p r kb_version) cand = some verdict →
      verdict.Names .REJECTED → ∀ e ∈ r'.edges, e.source = some .llm_judge → e.invalidated_at_seq = none → e.key ≠ cand.key
  never_extracted : (∀ e ∈ r.edges, e.source = some .llm_judge → e.trust_class ≠ .EXTRACTED) →
    ∀ e ∈ r'.edges, e.source = some .llm_judge → e.trust_class ≠ .EXTRACTED

/-- A row after the stale ones are retired: one written in the pass, or one it found that is not live. -/
theorem JudgedSoFar.retire {state : Registry × List (Uuid × Uuid × EdgeType)} (h : JudgedSoFar p client r asked state)
    {e : KnowledgeEdge}
    (he : e ∈ (retire_edges state.1 n fun e => e.source == some .llm_judge && !state.2.contains e.key).edges)
    (hsource : e.source = some .llm_judge) :
    (e.invalidated_at_seq = none ∧ ∃ cand ∈ asked, ∃ verdict,
      verdict_given p.unicode client r.judgments asked cand = some verdict ∧ JudgedEdge p r cand verdict e) ∨
    (e.invalidated_at_seq ≠ none ∧ ∃ old ∈ r.edges, e = { old with invalidated_at_seq := e.invalidated_at_seq }) := by
  obtain ⟨old, hold, rfl⟩ := List.mem_map.1 he
  by_cases hstale : (old.invalidated_at_seq.isNone && (old.source == some .llm_judge && !state.2.contains old.key)) = true
  · rw [if_pos hstale] at hsource ⊢
    simp only [Bool.and_eq_true, Bool.not_eq_true', List.contains_eq_mem, decide_eq_false_iff_not] at hstale
    cases h.edges old hold hsource with
    | inl hwritten => exact absurd hwritten.1 hstale.2.2
    | inr hkept => exact .inr ⟨Option.some_ne_none n, old, hkept.2, rfl⟩
  · rw [if_neg hstale] at hsource ⊢
    cases h.edges old hold hsource with
    | inl hwritten => exact .inl hwritten.2
    | inr hkept =>
      refine .inr ⟨fun hlive => hstale ?_, old, hkept.2, rfl⟩
      simp [hlive, hsource, hkept.1]

/-- Whatever the cache holds and the model answers, the judge writes no inferred edge without a quote from one of its
ends. -/
theorem run_judge_grounded (p : Platform) (client : ChatModelClient) (kb_version : String) (valid_from_seq : Nat)
    (r r' : Registry) (hrun : run_judge p kb_version valid_from_seq (client.judge p.unicode) r = some r') :
    JudgedByVerdicts p client kb_version r r' := by
  simp only [run_judge, Option.bind_eq_bind, Option.bind_eq_some_iff, Option.some.injEq, Prod.exists] at hrun
  obtain ⟨mid, computed, hmid, hfinal⟩ := hrun
  by_cases hnone : load_candidates p r kb_version = []
  · rw [hnone] at hmid
    obtain ⟨rfl, -⟩ := Prod.mk.inj (Option.some.inj hmid)
    rw [hnone, List.isEmpty_nil, if_pos rfl] at hfinal
    subst hfinal
    refine ⟨fun _ => rfl, fun h => absurd hnone h, fun e he _ _ => ⟨e, he, rfl⟩, ?_, fun h => h⟩
    intro cand hcand
    rw [hnone] at hcand
    cases hcand
  have hjudged : JudgedSoFar p client r (load_candidates p r kb_version) (mid, computed) := by
    refine foldlM_prefix_invariant (I := JudgedSoFar p client r) ?_ ?_ hmid
    · exact fun asked state cand state' hcand h hstep => h.judge_candidate hcand hstep
    · refine ⟨⟨fun key => ?_, fun cand hcand => by cases hcand⟩, fun e he _ => .inr ⟨List.not_mem_nil, he⟩⟩
      rw [List.find?_nil, Option.bind_none, Option.or_none]
  rw [if_neg (by simpa using hnone)] at hfinal
  subst hfinal
  have hrows := fun (e : KnowledgeEdge) he hsource => hjudged.retire (n := valid_from_seq) (e := e) he hsource
  have hlive := fun e he hsource (hlive : e.invalidated_at_seq = none) =>
    (hrows e he hsource).resolve_right fun h => h.1 hlive
  constructor
  case untouched => exact fun h => absurd h hnone
  case live => exact fun _ e he hsource h => (hlive e he hsource h).2
  case retired =>
    intro e he hsource h
    cases hrows e he hsource with
    | inl hwritten => exact absurd hwritten.1 h
    | inr hold => exact hold.2
  case rejected =>
    intro cand hcand verdict hverdict hnames e he hsource h hkey
    obtain ⟨-, other, hother, verdict', hverdict', hedge⟩ := hlive e he hsource h
    obtain rfl := load_candidates_key hcand hother (hkey.symm.trans hedge.link)
    obtain rfl := Option.some.inj (hverdict.symm.trans hverdict')
    exact hedge.kept hnames
  case never_extracted =>
    intro hbefore e he hsource
    cases hrows e he hsource with
    | inl hwritten =>
      obtain ⟨-, cand, -, verdict, -, hedge⟩ := hwritten
      exact hedge.not_extracted
    | inr hold =>
      obtain ⟨-, old, hmem, heq⟩ := hold
      rw [heq] at hsource ⊢
      exact hbefore old hmem hsource

end Judged

/-- A model that quotes the page. -/
def quoting_client : ChatModelClient where
  model_name := "judge"
  model_params_hash := "1"
  complete _ _ := some "\x7b\"relation_type\": \"documents\", \"trust_bucket\": \"INFERRED_HIGH\", \"supporting_quote\": \"pay charges\"\x7d"
  json_loads _ := some (.dict [("relation_type", .str "documents"), ("trust_bucket", .str "INFERRED_HIGH"),
    ("supporting_quote", .str "pay charges")])
  repair_json _ := .scalar

theorem run_judge_grounded_page :
    ∃ r', run_judge .plain "v" 1 (quoting_client.judge .ascii) { artifacts := page_and_code, candidates := [candidate_pair 1 2] } =
        some r' ∧
      JudgedByVerdicts .plain quoting_client "v" { artifacts := page_and_code, candidates := [candidate_pair 1 2] } r' := by
  have hsome : (run_judge .plain "v" 1 (quoting_client.judge .ascii)
      { artifacts := page_and_code, candidates := [candidate_pair 1 2] }).isSome = true := by decide +kernel
  obtain ⟨r', hrun⟩ := Option.isSome_iff_exists.1 hsome
  exact ⟨r', hrun, run_judge_grounded .plain quoting_client "v" 1 _ r' hrun⟩

end AgenticKb

import Mathlib.Data.List.Dedup
import AgenticKb.ContextBroker.Verify
import AgenticKb.Properties.GraphReads

open AgenticKb.Lib

namespace AgenticKb.ContextBroker

section Verdicts

variable (deps : VerifierDeps) (db : Database) (request : VerifyAnswerRequest) (requester : Requester)
  (evidence : Evidence)

/-- Every id the claim cites passes the six checks. -/
def l0_passes (claim : ClaimInput) : Bool :=
  claim.evidence_ids.all fun raw_id => (check_evidence deps.parse_uuid evidence.ctx raw_id).1.passed

/-- The claim's own quote and citations pass the coverage level, if it runs. -/
def l1_passes (claim : ClaimInput) : Bool := (claim_l1 deps evidence claim).all (·.1)

/-- The verdict on the claim's own assertion, if the typed-fact level runs and the claim has one. -/
def own_l2 (claim : ClaimInput) : Option Bool :=
  if evidence.levels.contains .L2 && evidence.is_active then
    l2_verdict deps db requester evidence.build_seq evidence.resolvable_ids claim
  else none

/-- The last such verdict on a claim of this id. -/
def shared_l2 (claim_id : String) : Option Bool :=
  ((request.claims.filter fun claim => claim.claim_id == claim_id).filterMap
    (own_l2 deps db requester evidence)).getLast?

/-- The entailment verdict on one claim, if the level runs for it. -/
def l3_outcome (client : EntailmentClient) (state : L3Pass) (entry : DeterministicClaim) : Option L3State :=
  if l3_runs deps evidence entry then
    some (run_l3_entailment deps evidence db client state entry.claim.text
      (cited_resolvable deps evidence.resolvable_ids entry.claim))
  else none

/-- The entailment verdicts in the order of the claims, each beside its claim's id. -/
def l3_outcomes (client : EntailmentClient) : L3Pass → List DeterministicClaim → List (String × Option L3State)
  | _, [] => []
  | state, entry :: entries =>
    (entry.claim.claim_id, l3_outcome deps db evidence client state entry) ::
      l3_outcomes client (l3_step deps evidence db client state entry) entries

def own_l3s : List (String × Option L3State) :=
  match l3_client deps evidence with
  | some client => l3_outcomes deps db evidence client { entailment_cache := db.entailment_cache }
      (deterministic_pass deps evidence request.claims)
  | none => request.claims.map fun claim => (claim.claim_id, none)

/-- What the model says of the `k`-th claim's own text, if it is asked. -/
def own_l3 (k : Nat) : Option Bool := ((own_l3s deps db request evidence)[k]?.bind (·.2)).map (·.entailed)

/-- The last entailment verdict on a claim of this id. -/
def shared_l3 (claim_id : String) : Option Bool :=
  (((own_l3s deps db request evidence).filter fun outcome => outcome.1 == claim_id).filterMap (·.2)).getLast?.map
    (·.entailed)

/-- The `k`-th claim passes if and only if every level that runs for it holds of that claim itself, and the
model is asked exactly about what the levels before it leave open. -/
structure ClaimSound (k : Nat) (claim : ClaimInput) (receipt : ClaimReceipt) : Prop where
  claim_id : receipt.claim_id = claim.claim_id
  passed : receipt.result = .passed ↔
    l0_passes deps evidence claim = true ∧ l1_passes deps evidence claim = true ∧
      (∀ verdict ∈ own_l2 deps db requester evidence claim, verdict = true) ∧
        ∀ verdict ∈ own_l3 deps db request evidence k, verdict = true
  l3_ran : (own_l3 deps db request evidence k).isSome = true ↔
    (l3_client deps evidence).isSome = true ∧ l0_passes deps evidence claim = true ∧
      l1_passes deps evidence claim = true ∧ own_l2 deps db requester evidence claim = none ∧
        cited_resolvable deps evidence.resolvable_ids claim ≠ []

structure VerifierSound (receipt : VerificationReceipt) : Prop where
  length : receipt.claim_results.length = request.claims.length
  claims : ∀ k claim, request.claims[k]? = some claim → ∀ result ∈ receipt.claim_results[k]?,
    ClaimSound deps db request requester evidence k claim result
  passed : receipt.overall = .passed ↔ ∀ result ∈ receipt.claim_results, result.result = .passed
  failed : receipt.overall = .failed ↔ ∀ result ∈ receipt.claim_results, result.result = .failed
  partly : receipt.overall = .partly ↔
    (∃ result ∈ receipt.claim_results, result.result = .passed) ∧
      ∃ result ∈ receipt.claim_results, result.result = .failed

/-- No other claim of the same id puts its verdict in place of the `k`-th claim's own. -/
structure Undisturbed (k : Nat) (claim : ClaimInput) : Prop where
  typed : (shared_l2 deps db request requester evidence claim.claim_id).getD true =
    (own_l2 deps db requester evidence claim).getD true
  untyped : (l3_client deps evidence).isSome = true → own_l2 deps db requester evidence claim = none →
    shared_l2 deps db request requester evidence claim.claim_id = none
  entailed : (shared_l3 deps db request evidence claim.claim_id).getD true =
    (own_l3 deps db request evidence k).getD true

end Verdicts

section Levels

variable {deps : VerifierDeps} {db : Database} {request : VerifyAnswerRequest} {requester : Requester}
  {active : ActiveVersion} {evidence : Evidence}

theorem merge_l0_passed (into other : L0Result) : (merge_l0 into other).passed = (into.passed && other.passed) := by
  simp only [merge_l0, L0Result.passed]
  ac_rfl

theorem foldl_merge_l0_passed (units : List L0Result) (unit : L0Result) :
    (units.foldl merge_l0 unit).passed = (unit.passed && units.all (·.passed)) := by
  induction units generalizing unit with
  | nil => simp
  | cons other units ih =>
    rw [List.foldl_cons, ih, merge_l0_passed, List.all_cons, Bool.and_assoc]

/-- A claim's checks all pass if those of every id it cites do. -/
theorem merged_l0_passed (claim : ClaimInput) :
    (merged_l0 deps evidence claim).passed = l0_passes deps evidence claim := by
  have hall : ∀ (results : List L0Result) (hne : results ≠ []),
      (results.tail.foldl merge_l0 (results.head hne)).passed = results.all (·.passed) := by
    intro results hne
    cases results with
    | nil => exact absurd rfl hne
    | cons unit units => exact foldl_merge_l0_passed units unit
  rw [merged_l0, hall, l0_passes, evidence_results, List.map_map, List.all_map]
  rfl

/-- A claim whose checks all pass cites a unit that resolves, and in the version served. -/
theorem cited_resolvable_ne_nil (hevidence : evidence = resolve_evidence deps db request requester active)
    {claim : ClaimInput} (h : l0_passes deps evidence claim = true) :
    cited_resolvable deps evidence.resolvable_ids claim ≠ [] ∧ evidence.is_active = true := by
  obtain ⟨raw_id, rest, hcited⟩ := List.exists_cons_of_ne_nil claim.evidence_ids_ne
  have hfirst : (check_evidence deps.parse_uuid evidence.ctx raw_id).1.passed = true :=
    List.all_eq_true.1 h raw_id (by simp [hcited])
  unfold check_evidence at hfirst
  cases hparse : deps.parse_uuid raw_id with
  | none => simp [hparse, L0Result.passed] at hfirst
  | some id =>
    simp only [hparse, L0Result.passed, Bool.and_eq_true] at hfirst
    obtain ⟨⟨⟨⟨⟨-, hversion⟩, hvisible⟩, hledger⟩, -⟩, -⟩ := hfirst
    have hactive : evidence.is_active = true := by
      by_contra hpinned
      subst hevidence
      simp only [resolve_evidence] at hpinned hversion
      simp [hpinned, Dict.get?] at hversion
    have hresolvable : id ∈ evidence.resolvable_ids := by
      rw [List.contains_iff_mem] at hvisible hledger
      subst hevidence
      obtain ⟨entry, hentry, rfl⟩ := List.mem_map.1 hvisible
      exact List.mem_map.2 ⟨entry, List.mem_filter.2 ⟨hentry, List.contains_iff_mem.2 hledger⟩, rfl⟩
    refine ⟨List.ne_nil_of_mem (a := id) ?_, hactive⟩
    rw [cited_resolvable, List.mem_dedup, List.mem_filter, List.contains_iff_mem]
    exact ⟨List.mem_filterMap.2 ⟨raw_id, by simp [hcited], hparse⟩, hresolvable⟩

/-- What the first pass finds under a claim's id. -/
theorem l2_typed_fact_eq (hevidence : evidence = resolve_evidence deps db request requester active)
    (claim : ClaimInput) : (deterministic_claim deps evidence claim).l2_typed_fact =
      shared_l2 deps db request requester evidence claim.claim_id := by
  have hverdicts : evidence.l2_verdicts =
      if evidence.levels.contains .L2 && evidence.is_active then
        request.claims.foldl (fun (d : Dict String Bool) claim =>
          d.set_some claim.claim_id (l2_verdict deps db requester evidence.build_seq evidence.resolvable_ids claim)) []
      else [] := by
    rw [hevidence]
    rfl
  rw [deterministic_claim]
  dsimp only
  rw [hverdicts, shared_l2]
  cases hon : evidence.levels.contains .L2 && evidence.is_active with
  | true =>
    have hown : own_l2 deps db requester evidence =
        l2_verdict deps db requester evidence.build_seq evidence.resolvable_ids := by
      funext other
      rw [own_l2, if_pos hon]
    have hlevel : evidence.levels.contains .L2 = true := (Bool.and_eq_true_iff.1 hon).1
    rw [if_pos hlevel, if_pos rfl, hown, Dict.get?_foldl_set_some ClaimInput.claim_id
      (l2_verdict deps db requester evidence.build_seq evidence.resolvable_ids)]
    exact Option.or_none
  | false =>
    have hown : own_l2 deps db requester evidence = fun _ => none := by
      funext other
      rw [own_l2, hon]
      rfl
    rw [hown]
    simp [Dict.get?]

/-- The first pass lets a claim through if its citations, its quote and the verdict under its id do. -/
theorem deterministic_passed_iff (hevidence : evidence = resolve_evidence deps db request requester active)
    (claim : ClaimInput) : (deterministic_claim deps evidence claim).deterministic_passed = true ↔
      (l0_passes deps evidence claim = true ∧ l1_passes deps evidence claim = true) ∧
        (shared_l2 deps db request requester evidence claim.claim_id).getD true = true := by
  have hl1 : ((claim_l1 deps evidence claim).map (·.1)).getD true = l1_passes deps evidence claim := by
    rw [l1_passes]
    cases claim_l1 deps evidence claim <;> rfl
  have hpassed : (deterministic_claim deps evidence claim).deterministic_passed =
      ((merged_l0 deps evidence claim).passed && ((claim_l1 deps evidence claim).map (·.1)).getD true &&
        (deterministic_claim deps evidence claim).l2_typed_fact.getD true) := rfl
  rw [hpassed, merged_l0_passed, hl1, l2_typed_fact_eq hevidence, Bool.and_eq_true, Bool.and_eq_true]

/-- The model is asked about a claim that the levels before it let through without a verdict under its id. -/
theorem l3_runs_iff (hevidence : evidence = resolve_evidence deps db request requester active) (claim : ClaimInput) :
    l3_runs deps evidence (deterministic_claim deps evidence claim) = true ↔
      (l0_passes deps evidence claim = true ∧ l1_passes deps evidence claim = true) ∧
        shared_l2 deps db request requester evidence claim.claim_id = none := by
  rw [l3_runs, l3_eligible, l2_typed_fact_eq hevidence, Bool.and_eq_true, Bool.and_eq_true,
    deterministic_passed_iff hevidence, Option.isNone_iff_eq_none]
  constructor
  · rintro ⟨⟨⟨hbase, -⟩, hnone⟩, -⟩
    exact ⟨hbase, hnone⟩
  · rintro ⟨hbase, hnone⟩
    have hcited : cited_resolvable deps evidence.resolvable_ids claim ≠ [] :=
      (cited_resolvable_ne_nil hevidence hbase.1).1
    exact ⟨⟨⟨hbase, by rw [hnone]; rfl⟩, hnone⟩, by simpa [deterministic_claim] using hcited⟩

end Levels

section Entailment

variable {deps : VerifierDeps} {db : Database} {evidence : Evidence} {client : EntailmentClient}

theorem l3_outcome_isSome (state : L3Pass) (entry : DeterministicClaim) :
    (l3_outcome deps db evidence client state entry).isSome = l3_runs deps evidence entry := by
  rw [l3_outcome]
  cases l3_runs deps evidence entry <;> rfl

theorem l3_step_verdicts (state : L3Pass) (entry : DeterministicClaim) :
    (l3_step deps evidence db client state entry).l3_verdicts =
      state.l3_verdicts.set_some entry.claim.claim_id (l3_outcome deps db evidence client state entry) := by
  rw [l3_step, l3_outcome]
  by_cases hruns : l3_runs deps evidence entry = true
  · rw [if_pos hruns, if_pos hruns, Dict.set_some]
  · rw [if_neg hruns, if_neg hruns, Dict.set_some]

theorem l3_verdicts_foldl (entries : List DeterministicClaim) (state : L3Pass) :
    (entries.foldl (l3_step deps evidence db client) state).l3_verdicts =
      (l3_outcomes deps db evidence client state entries).foldl (fun (d : Dict String L3State) outcome =>
        d.set_some outcome.1 outcome.2) state.l3_verdicts := by
  induction entries generalizing state with
  | nil => rfl
  | cons entry entries ih => rw [List.foldl_cons, ih, l3_step_verdicts, l3_outcomes, List.foldl_cons]

/-- The second pass keeps, under each id, the last verdict it was given. -/
theorem get?_l3_verdicts (entries : List DeterministicClaim) (state : L3Pass) (claim_id : String) :
    (entries.foldl (l3_step deps evidence db client) state).l3_verdicts.get? claim_id =
      (((l3_outcomes deps db evidence client state entries).filter fun outcome =>
        outcome.1 == claim_id).filterMap (·.2)).getLast?.or (state.l3_verdicts.get? claim_id) := by
  rw [l3_verdicts_foldl]
  exact Dict.get?_foldl_set_some (fun outcome : String × Option L3State => outcome.1) (fun outcome => outcome.2)
    _ _ claim_id

/-- The model gives a verdict on exactly the claims the level runs for. -/
theorem l3_outcomes_getElem? (entries : List DeterministicClaim) (state : L3Pass) (k : Nat) :
    ((l3_outcomes deps db evidence client state entries)[k]?.bind (·.2)).isSome =
      entries[k]?.any (l3_runs deps evidence) := by
  induction entries generalizing state k with
  | nil => rfl
  | cons entry entries ih =>
    cases k with
    | zero =>
      rw [l3_outcomes, List.getElem?_cons_zero, List.getElem?_cons_zero, Option.bind_some, l3_outcome_isSome]
      rfl
    | succ k => exact ih _ k

theorem l3_outcomes_ids (entries : List DeterministicClaim) (state : L3Pass) :
    (l3_outcomes deps db evidence client state entries).map (·.1) = entries.map (·.claim.claim_id) := by
  induction entries generalizing state with
  | nil => rfl
  | cons entry entries ih => rw [l3_outcomes, List.map_cons, List.map_cons, ih]

theorem entry_of_mem_l3_outcomes {entries : List DeterministicClaim} {state : L3Pass}
    {outcome : String × Option L3State} (h : outcome ∈ l3_outcomes deps db evidence client state entries) :
    ∃ entry ∈ entries, entry.claim.claim_id = outcome.1 ∧ outcome.2.isSome = l3_runs deps evidence entry := by
  induction entries generalizing state with
  | nil => simp [l3_outcomes] at h
  | cons entry entries ih =>
    rw [l3_outcomes] at h
    cases List.mem_cons.1 h with
    | inl hfirst =>
      refine ⟨entry, List.mem_cons_self, by rw [hfirst], ?_⟩
      rw [hfirst, l3_outcome_isSome]
    | inr hrest =>
      obtain ⟨other, hmem, hother⟩ := ih hrest
      exact ⟨other, List.mem_cons_of_mem _ hmem, hother⟩

end Entailment

section Receipts

variable {deps : VerifierDeps} {db : Database} {request : VerifyAnswerRequest} {requester : Requester}
  {active : ActiveVersion} {evidence : Evidence} {client_id : Option String}

theorem l3_verdict_eq (claim_id : String) :
    ((l3_pass deps evidence db (deterministic_pass deps evidence request.claims)).l3_verdicts.get? claim_id).map
      (·.entailed) = shared_l3 deps db request evidence claim_id := by
  rw [l3_pass, shared_l3, own_l3s]
  cases l3_client deps evidence with
  | none =>
    dsimp only
    rw [List.filter_map, List.filterMap_map]
    simp [Dict.get?]
  | some client =>
    dsimp only
    rw [get?_l3_verdicts]
    simp [Dict.get?]

theorem own_l3_isSome (hevidence : evidence = resolve_evidence deps db request requester active) {k : Nat}
    {claim : ClaimInput} (hclaim : request.claims[k]? = some claim) :
    (own_l3 deps db request evidence k).isSome = true ↔
      (l3_client deps evidence).isSome = true ∧
        (l0_passes deps evidence claim = true ∧ l1_passes deps evidence claim = true) ∧
          shared_l2 deps db request requester evidence claim.claim_id = none := by
  rw [own_l3, Option.isSome_map, own_l3s]
  cases l3_client deps evidence with
  | none => simp [hclaim]
  | some client =>
    dsimp only
    rw [l3_outcomes_getElem?, deterministic_pass, List.getElem?_map, hclaim, Option.map_some, Option.any_some,
      l3_runs_iff hevidence]
    simp

/-- Where an assertion under an id is adjudicated, the model is asked about no claim of that id. -/
theorem shared_l3_eq_none (hevidence : evidence = resolve_evidence deps db request requester active)
    {claim_id : String} (h : shared_l2 deps db request requester evidence claim_id ≠ none) :
    shared_l3 deps db request evidence claim_id = none := by
  have hnone : ((own_l3s deps db request evidence).filter fun outcome => outcome.1 == claim_id).filterMap (·.2) =
      [] := by
    rw [List.filterMap_eq_nil_iff]
    intro outcome houtcome
    obtain ⟨hmem, hid⟩ := List.mem_filter.1 houtcome
    rw [own_l3s] at hmem
    cases hclient : l3_client deps evidence with
    | none =>
      rw [hclient] at hmem
      obtain ⟨claim, -, rfl⟩ := List.mem_map.1 hmem
      rfl
    | some client =>
      rw [hclient] at hmem
      obtain ⟨entry, hentry, heq, hruns⟩ := entry_of_mem_l3_outcomes hmem
      obtain ⟨claim, -, rfl⟩ := List.mem_map.1 hentry
      rw [← Option.not_isSome_iff_eq_none, hruns, l3_runs_iff hevidence]
      rintro ⟨-, hshared⟩
      apply h
      rw [← hshared, ← beq_iff_eq.1 hid, ← heq]
      rfl
  rw [shared_l3, hnone]
  rfl

/-- A claim's own typed verdict is one of those under its id. -/
theorem shared_l2_ne_none {claim : ClaimInput} (hclaim : claim ∈ request.claims)
    (h : own_l2 deps db requester evidence claim ≠ none) :
    shared_l2 deps db request requester evidence claim.claim_id ≠ none := by
  obtain ⟨verdict, hverdict⟩ := Option.ne_none_iff_exists'.1 h
  rw [shared_l2, ne_eq, List.getLast?_eq_none_iff]
  exact List.ne_nil_of_mem (List.mem_filterMap.2 ⟨claim, List.mem_filter.2 ⟨hclaim, by simp⟩, hverdict⟩)

theorem forall_mem_iff_getD (verdict : Option Bool) : (∀ v ∈ verdict, v = true) ↔ verdict.getD true = true := by
  cases verdict <;> simp

/-- The verdict on one claim: what stands under its id. -/
theorem result_passed_iff (hevidence : evidence = resolve_evidence deps db request requester active)
    (claim : ClaimInput) :
    (claim_receipt (l3_pass deps evidence db (deterministic_pass deps evidence request.claims)).l3_verdicts
        (deterministic_claim deps evidence claim)).result = .passed ↔
      ((l0_passes deps evidence claim = true ∧ l1_passes deps evidence claim = true) ∧
        (shared_l2 deps db request requester evidence claim.claim_id).getD true = true) ∧
          (shared_l3 deps db request evidence claim.claim_id).getD true = true := by
  rw [← deterministic_passed_iff hevidence, ← l3_verdict_eq, claim_receipt, ← Bool.and_eq_true]
  dsimp only
  rw [show (deterministic_claim deps evidence claim).claim = claim from rfl]
  split
  · rename_i hpassed
    simp [hpassed]
  · rename_i hfailed
    simp [hfailed]

/-- One claim's result is sound exactly if no other claim of its id disturbs it. -/
theorem claimSound_iff (hevidence : evidence = resolve_evidence deps db request requester active) {k : Nat}
    {claim : ClaimInput} (hclaim : request.claims[k]? = some claim) :
    ClaimSound deps db request requester evidence k claim
        (claim_receipt (l3_pass deps evidence db (deterministic_pass deps evidence request.claims)).l3_verdicts
          (deterministic_claim deps evidence claim)) ↔
      (l0_passes deps evidence claim = true → l1_passes deps evidence claim = true →
        Undisturbed deps db request requester evidence k claim) := by
  have hresult := result_passed_iff hevidence claim
  have hran := own_l3_isSome hevidence hclaim
  have hshared : shared_l2 deps db request requester evidence claim.claim_id ≠ none →
      shared_l3 deps db request evidence claim.claim_id = none := shared_l3_eq_none hevidence
  have hown : own_l2 deps db requester evidence claim ≠ none →
      shared_l2 deps db request requester evidence claim.claim_id ≠ none :=
    shared_l2_ne_none (List.mem_of_getElem? hclaim)
  constructor
  · intro hsound hl0 hl1
    have hpassed := hsound.passed
    have hasked := hsound.l3_ran
    rw [hresult, forall_mem_iff_getD, forall_mem_iff_getD] at hpassed
    rw [hran] at hasked
    have hcited := (cited_resolvable_ne_nil hevidence hl0).1
    simp only [hl0, hl1, hcited, true_and, and_true, ne_eq, not_false_eq_true] at hpassed hasked hran
    have huntyped : (l3_client deps evidence).isSome = true → own_l2 deps db requester evidence claim = none →
        shared_l2 deps db request requester evidence claim.claim_id = none :=
      fun hclient hnone => (hasked.2 ⟨hclient, hnone⟩).2
    cases htyped : shared_l2 deps db request requester evidence claim.claim_id with
    | none =>
      have hnone : own_l2 deps db requester evidence claim = none := by
        by_contra hsome
        exact hown hsome htyped
      simp only [htyped, hnone, Option.getD_none, true_and] at hpassed
      exact ⟨by rw [htyped, hnone], huntyped, Bool.eq_iff_iff.2 hpassed⟩
    | some verdict =>
      have hothers : shared_l3 deps db request evidence claim.claim_id = none := hshared (by simp [htyped])
      have hnot : own_l3 deps db request evidence k = none := by
        rw [← Option.not_isSome_iff_eq_none, hran, htyped]
        simp
      simp only [htyped, hothers, hnot, Option.getD_none, Option.getD_some, and_true] at hpassed
      exact ⟨by rw [htyped]; exact Bool.eq_iff_iff.2 hpassed, huntyped, by rw [hothers, hnot]⟩
  · intro hundisturbed
    refine ⟨rfl, ?_, ?_⟩
    · rw [hresult, forall_mem_iff_getD, forall_mem_iff_getD]
      constructor
      · rintro ⟨⟨⟨hl0, hl1⟩, htyped⟩, hentailed⟩
        have h := hundisturbed hl0 hl1
        exact ⟨hl0, hl1, h.typed ▸ htyped, h.entailed ▸ hentailed⟩
      · rintro ⟨hl0, hl1, htyped, hentailed⟩
        have h := hundisturbed hl0 hl1
        exact ⟨⟨⟨hl0, hl1⟩, h.typed.trans htyped⟩, h.entailed.trans hentailed⟩
    · rw [hran]
      constructor
      · rintro ⟨hclient, ⟨hl0, hl1⟩, hnone⟩
        refine ⟨hclient, hl0, hl1, ?_, (cited_resolvable_ne_nil hevidence hl0).1⟩
        by_contra hsome
        exact hown hsome hnone
      · rintro ⟨hclient, hl0, hl1, hnone, -⟩
        exact ⟨hclient, ⟨hl0, hl1⟩, (hundisturbed hl0 hl1).untyped hclient hnone⟩

/-- The overall result says whether all, none or some of the claims passed. -/
theorem overall_result_spec {claim_results : List ClaimReceipt} (hne : claim_results ≠ []) :
    (overall_result claim_results = .passed ↔ ∀ result ∈ claim_results, result.result = .passed) ∧
      (overall_result claim_results = .failed ↔ ∀ result ∈ claim_results, result.result = .failed) ∧
        (overall_result claim_results = .partly ↔ (∃ result ∈ claim_results, result.result = .passed) ∧
          ∃ result ∈ claim_results, result.result = .failed) := by
  have hfailed : ∀ result : ClaimResult, result = .failed ↔ ¬ result = .passed := by
    intro result
    cases result <;> simp
  have hall : (claim_results.countP fun r => r.result == .passed) = claim_results.length ↔
      ∀ result ∈ claim_results, result.result = .passed := by simp [List.countP_eq_length]
  have hnone : (claim_results.countP fun r => r.result == .passed) = 0 ↔
      ∀ result ∈ claim_results, result.result = .failed := by simp [List.countP_eq_zero, hfailed]
  obtain ⟨first, hfirst⟩ := List.exists_mem_of_ne_nil _ hne
  have hapart : (∀ result ∈ claim_results, result.result = .passed) →
      ¬ ∀ result ∈ claim_results, result.result = .failed := by
    intro hpassed hnot
    have heq := (hpassed first hfirst).symm.trans (hnot first hfirst)
    simp at heq
  rw [overall_result]
  by_cases hp : ∀ result ∈ claim_results, result.result = .passed
  · rw [if_pos (hall.2 hp)]
    refine ⟨by simpa using hp, by simpa using hapart hp, ?_⟩
    have hsome : ¬ ∃ result ∈ claim_results, result.result = .failed := by
      rintro ⟨result, hmem, hresult⟩
      simp [hp result hmem] at hresult
    simp [hsome]
  · rw [if_neg (mt hall.1 hp)]
    by_cases hf : ∀ result ∈ claim_results, result.result = .failed
    · rw [if_pos (hnone.2 hf)]
      refine ⟨by simpa using hp, by simpa using hf, ?_⟩
      have hsome : ¬ ∃ result ∈ claim_results, result.result = .passed := by
        rintro ⟨result, hmem, hresult⟩
        simp [hf result hmem] at hresult
      simp [hsome]
    · rw [if_neg (mt hnone.1 hf)]
      refine ⟨by simpa using hp, by simpa using hf, ?_⟩
      simp only [hfailed, not_forall, not_not, exists_prop] at hp hf ⊢
      simp [hp, hf]

/-- What the verifier issues, signed or not, reads as it was assembled. -/
theorem claim_results_issue_receipt (deps : VerifierDeps) (receipt : VerificationReceipt) :
    (issue_receipt deps receipt).claim_results = receipt.claim_results ∧
      (issue_receipt deps receipt).overall = receipt.overall := by
  rw [issue_receipt]
  cases deps.signing_key with
  | none => exact ⟨rfl, rfl⟩
  | some key =>
    dsimp only
    split <;> exact ⟨rfl, rfl⟩

theorem verifierSound_issue_receipt (hevidence : evidence = resolve_evidence deps db request requester active) :
    VerifierSound deps db request requester evidence
        (issue_receipt deps (unsigned_receipt deps request client_id evidence
          (assemble_receipts (deterministic_pass deps evidence request.claims)
            (l3_pass deps evidence db (deterministic_pass deps evidence request.claims)).l3_verdicts))) ↔
      ∀ k claim, request.claims[k]? = some claim → l0_passes deps evidence claim = true →
        l1_passes deps evidence claim = true → Undisturbed deps db request requester evidence k claim := by
  generalize hresults : assemble_receipts (deterministic_pass deps evidence request.claims)
    (l3_pass deps evidence db (deterministic_pass deps evidence request.claims)).l3_verdicts = claim_results
  have hreceipt := claim_results_issue_receipt deps
    (unsigned_receipt deps request client_id evidence claim_results)
  have hget : ∀ (k : Nat) (claim : ClaimInput), request.claims[k]? = some claim → claim_results[k]? =
      some (claim_receipt (l3_pass deps evidence db (deterministic_pass deps evidence request.claims)).l3_verdicts
        (deterministic_claim deps evidence claim)) := by
    intro k claim hclaim
    rw [← hresults, assemble_receipts, deterministic_pass, List.getElem?_map, List.getElem?_map, hclaim]
    rfl
  have hlength : claim_results.length = request.claims.length := by
    rw [← hresults, assemble_receipts, deterministic_pass, List.length_map, List.length_map]
  have hne : claim_results ≠ [] := by
    rw [← List.length_pos_iff, hlength]
    exact List.length_pos_iff.2 request.claims_ne
  obtain ⟨hpassed, hfailed, hpartly⟩ := overall_result_spec hne
  constructor
  · intro hsound k claim hclaim
    apply (claimSound_iff hevidence hclaim).1
    apply hsound.claims k claim hclaim
    rw [hreceipt.1]
    exact hget k claim hclaim
  · intro hundisturbed
    refine ⟨?_, fun k claim hclaim result hresult => ?_, ?_, ?_, ?_⟩
    · rw [hreceipt.1]
      exact hlength
    · rw [hreceipt.1] at hresult
      obtain rfl := Option.some.inj ((hget k claim hclaim).symm.trans hresult)
      exact (claimSound_iff hevidence hclaim).2 (hundisturbed k claim hclaim)
    · rw [hreceipt.1, hreceipt.2]
      exact hpassed
    · rw [hreceipt.1, hreceipt.2]
      exact hfailed
    · rw [hreceipt.1, hreceipt.2]
      exact hpartly

/-- Claims of different ids do not disturb each other. -/
theorem undisturbed_of_nodup
    (hnodup : (request.claims.map (·.claim_id)).Nodup) {k : Nat} {claim : ClaimInput}
    (hclaim : request.claims[k]? = some claim) : Undisturbed deps db request requester evidence k claim := by
  have htyped : shared_l2 deps db request requester evidence claim.claim_id =
      own_l2 deps db requester evidence claim := by
    rw [shared_l2, Dict.filter_key_eq hnodup hclaim]
    cases hown : own_l2 deps db requester evidence claim with
    | none => rw [List.filterMap_cons_none hown]; rfl
    | some verdict => rw [List.filterMap_cons_some hown]; rfl
  have hids : (own_l3s deps db request evidence).map (·.1) = request.claims.map (·.claim_id) := by
    rw [own_l3s]
    cases l3_client deps evidence with
    | none => simp
    | some client =>
      dsimp only
      rw [l3_outcomes_ids, deterministic_pass, List.map_map]
      rfl
  obtain ⟨outcome, houtcome, hid⟩ : ∃ outcome, (own_l3s deps db request evidence)[k]? = some outcome ∧
      outcome.1 = claim.claim_id := by
    have hk := congrArg (·[k]?) hids
    simpa [hclaim] using hk
  refine ⟨by rw [htyped], fun _ hnone => htyped.trans hnone, ?_⟩
  rw [shared_l3, own_l3, houtcome, ← hid, Dict.filter_key_eq (hids ▸ hnodup) houtcome]
  cases hverdict : outcome.2 with
  | none => rw [List.filterMap_cons_none hverdict, Option.bind_some, hverdict]; rfl
  | some verdict => rw [List.filterMap_cons_some hverdict, Option.bind_some, hverdict]; rfl

end Receipts

section Answers

variable (deps : VerifierDeps) (db : Database) (request : VerifyAnswerRequest) (requester : Requester)
  (client_id : Option String)

/-- The verifier is sound for a request exactly if, for every claim that passes its citations and its quote, no
other claim of the same id puts its typed-fact or its entailment verdict in the place of the claim's own. -/
theorem verify_answer_sound_iff {active : ActiveVersion} (hactive : fetch_active_version db = some active)
    {receipt : VerificationReceipt} (hreceipt : (verify_answer deps db request requester client_id).1 = .ok receipt) :
    VerifierSound deps db request requester (resolve_evidence deps db request requester active) receipt ↔
      ∀ k claim, request.claims[k]? = some claim →
        l0_passes deps (resolve_evidence deps db request requester active) claim = true →
          l1_passes deps (resolve_evidence deps db request requester active) claim = true →
            Undisturbed deps db request requester (resolve_evidence deps db request requester active) k claim := by
  rw [verify_answer, hactive] at hreceipt
  obtain rfl := Except.ok.inj hreceipt
  exact verifierSound_issue_receipt rfl

end Answers

section SharedIds

/-- The number that a text spells in decimal digits. -/
def parse_number (text : String) : Option Nat :=
  if text != "" && text.toList.all Char.isDigit then
    some (text.toList.foldl (fun n c => 10 * n + (c.toNat - '0'.toNat)) 0)
  else none

/-- Services to verify small answers: an id is a number, and a MAC is the key before the payload. -/
def VerifierDeps.plain : VerifierDeps :=
  { BrokerDeps.plain with
    parse_uuid := parse_number
    now := 0
    hmac_sha256 := fun key payload => key ++ payload }

/-- Two public files, of which the agent was given the first. -/
def given_database : Database :=
  { repo_database [] with
    retrieval_events :=
      [{ run_id := "run", agent_name := "agent", tool_name := "kb_search", status := .approved, kb_version := "v1"
         returned_artifact_ids := [1] }] }

/-- A claim about the first file. -/
def file_claim (claim_id : String) (assertion : ClaimAssertion) : ClaimInput :=
  { claim_id, text := "about the file", evidence_ids := ["1"], assertion := some assertion }

/-- An answer to be checked on its citations and its assertions. -/
def typed_answer (claim : ClaimInput) (claims : List ClaimInput) : VerifyAnswerRequest :=
  { answer_id := "answer", claims := claim :: claims, verifier_levels := [.L0, .L2] }

/-- Of two claims about the first file only the second is true. -/
def two_claims (first second : String) : VerifyAnswerRequest :=
  typed_answer (file_claim first (.symbol_in_file "ghost" "file"))
    [file_claim second (.file_imports_module "file" "file")]

/-- Under one id the true claim carries the false one. -/
theorem verify_answer_shared_id : ∃ receipt,
    (verify_answer .plain given_database (two_claims "c" "c") outsider none).1 = .ok receipt ∧
      receipt.overall = .passed ∧
        ¬ VerifierSound .plain given_database (two_claims "c" "c") outsider
          (resolve_evidence .plain given_database (two_claims "c" "c") outsider ⟨"v1", 1⟩) receipt := by
  refine ⟨_, rfl, by decide +kernel, fun hsound => ?_⟩
  have hfirst := (hsound.claims 0 _ rfl _ rfl).passed.1 (by decide +kernel)
  have hfalse : own_l2 .plain given_database outsider
      (resolve_evidence .plain given_database (two_claims "c" "c") outsider ⟨"v1", 1⟩)
      ((two_claims "c" "c").claims.head (two_claims "c" "c").claims_ne) = some false := by decide +kernel
  exact absurd (hfirst.2.2.1 false hfalse) (by simp)

/-- Under two ids each claim has its own verdict. -/
theorem verify_answer_sound_iff_two_ids : ∃ receipt,
    (verify_answer .plain given_database (two_claims "c" "d") outsider none).1 = .ok receipt ∧
      receipt.overall = .partly ∧
        (VerifierSound .plain given_database (two_claims "c" "d") outsider
            (resolve_evidence .plain given_database (two_claims "c" "d") outsider ⟨"v1", 1⟩) receipt ↔
          ∀ k claim, (two_claims "c" "d").claims[k]? = some claim →
            l0_passes .plain (resolve_evidence .plain given_database (two_claims "c" "d") outsider ⟨"v1", 1⟩) claim =
              true →
            l1_passes .plain (resolve_evidence .plain given_database (two_claims "c" "d") outsider ⟨"v1", 1⟩) claim =
              true →
            Undisturbed .plain given_database (two_claims "c" "d") outsider
              (resolve_evidence .plain given_database (two_claims "c" "d") outsider ⟨"v1", 1⟩) k claim) :=
  ⟨_, rfl, by decide +kernel, verify_answer_sound_iff .plain given_database (two_claims "c" "d") outsider none rfl rfl⟩

end SharedIds

end AgenticKb.ContextBroker

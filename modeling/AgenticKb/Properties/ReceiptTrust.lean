import Mathlib.Data.Set.Insert
import AgenticKb.ContextBroker.PlatformTrust
import AgenticKb.Properties.VerifierSoundness

open AgenticKb.Lib

namespace AgenticKb.ContextBroker

section Payload

theorem option_bool_inj {a b : Option Bool} (h : Json.option_bool a = Json.option_bool b) : a = b := by
  cases a with
  | none =>
    cases b with
    | none => rfl
    | some b => simp [Json.option_bool] at h
  | some a =>
    cases b with
    | none => simp [Json.option_bool] at h
    | some b => simpa [Json.option_bool] using h

theorem option_str_inj {a b : Option String} (h : Json.option_str a = Json.option_str b) : a = b := by
  cases a with
  | none =>
    cases b with
    | none => rfl
    | some b => simp [Json.option_str] at h
  | some a =>
    cases b with
    | none => simp [Json.option_str] at h
    | some b => simpa [Json.option_str] using h

theorem ClaimResult.text_inj {a b : ClaimResult} (h : a.text = b.text) : a = b := by
  cases a <;> cases b <;> first | rfl | simp [ClaimResult.text] at h

theorem checks_payload_inj {a b : ClaimChecks} (h : checks_payload a = checks_payload b) : a = b := by
  simp only [checks_payload, Json.obj.injEq, List.cons.injEq, Prod.mk.injEq, true_and, and_true, Json.bool.injEq] at h
  obtain ⟨hvisible, hexists, hversion, hledger, hstale, htrust, hl1, hl2, hl3⟩ := h
  obtain ⟨⟩ := a
  obtain ⟨⟩ := b
  simp only [ClaimChecks.mk.injEq]
  exact ⟨hexists, hversion, hvisible, hledger, hstale, htrust, option_bool_inj hl1, option_bool_inj hl2,
    option_bool_inj hl3⟩

/-- The payload of a claim binds all of it but the texts of its reasons. -/
theorem claim_payload_inj {a b : ClaimReceipt} (h : claim_payload a = claim_payload b) :
    a.claim_id = b.claim_id ∧ a.result = b.result ∧ a.checks = b.checks := by
  simp only [claim_payload, Json.obj.injEq, List.cons.injEq, Prod.mk.injEq, true_and, and_true, Json.str.injEq] at h
  exact ⟨h.2.1, ClaimResult.text_inj h.2.2, checks_payload_inj h.1⟩

/-- The payload of a receipt binds the answer, the version, the client and the claims. -/
theorem canonical_payload_inj {a b : VerificationReceipt} (h : canonical_payload a = canonical_payload b) :
    a.answer_hash = b.answer_hash ∧ a.graph_version = b.graph_version ∧ a.client_id = b.client_id ∧
      a.claim_results.map claim_payload = b.claim_results.map claim_payload := by
  have hfields := json_dumps_inj h
  simp only [Json.obj.injEq, List.cons.injEq, Prod.mk.injEq, true_and, and_true, Json.str.injEq, Json.arr.injEq]
    at hfields
  exact ⟨hfields.1, hfields.2.2.2, option_str_inj hfields.2.2.1, hfields.2.1⟩

end Payload

section Reasons

variable {deps : VerifierDeps} {evidence : Evidence}

theorem check_evidence_reasons {parse_uuid : String → Option Uuid} {ctx : EvidenceContext} {raw_id : String}
    (h : (check_evidence parse_uuid ctx raw_id).1.passed = true) : (check_evidence parse_uuid ctx raw_id).2 = [] := by
  unfold check_evidence at h ⊢
  cases hparse : parse_uuid raw_id with
  | none => simp [hparse, L0Result.passed] at h
  | some id =>
    simp only [hparse, L0Result.passed, Bool.and_eq_true] at h ⊢
    obtain ⟨⟨⟨⟨⟨-, hversion⟩, hvisible⟩, hledger⟩, hstale⟩, htrust⟩ := h
    simp only [hversion, hvisible, hledger, hstale, htrust]
    rfl

theorem l1_coverage_reasons {claim : ClaimInput} {units : List L0Result} {cited_texts : List String}
    (h : (l1_coverage deps claim units cited_texts).1 = true) : (l1_coverage deps claim units cited_texts).2 = [] := by
  unfold l1_coverage at h ⊢
  rw [Bool.and_eq_true, Bool.and_eq_true] at h
  obtain ⟨⟨hcited, hquote⟩, hgrounded⟩ := h
  dsimp only at hcited hquote hgrounded ⊢
  rw [hcited, hquote] at hgrounded ⊢
  rw [hgrounded]
  rfl

theorem passed_of_result {l3_verdicts : Dict String L3State} {entry : DeterministicClaim}
    (h : (claim_receipt l3_verdicts entry).result = .passed) :
    entry.deterministic_passed = true ∧
      ((l3_verdicts.get? entry.claim.claim_id).map (·.entailed)).getD true = true := by
  rw [← Bool.and_eq_true]
  by_contra hfailed
  rw [claim_receipt] at h
  dsimp only at h
  rw [if_neg hfailed] at h
  simp at h

/-- A claim that passed gives no reason to fail it. -/
theorem failed_reasons_of_passed {l3_verdicts : Dict String L3State} {claim : ClaimInput}
    (h : (claim_receipt l3_verdicts (deterministic_claim deps evidence claim)).result = .passed) :
    (claim_receipt l3_verdicts (deterministic_claim deps evidence claim)).failed_reasons = [] := by
  obtain ⟨hdeterministic, hentailed⟩ := passed_of_result h
  have hsplit : (deterministic_claim deps evidence claim).deterministic_passed =
      ((merged_l0 deps evidence claim).passed && ((claim_l1 deps evidence claim).map (·.1)).getD true &&
        (deterministic_claim deps evidence claim).l2_typed_fact.getD true) := rfl
  rw [hsplit, Bool.and_eq_true, Bool.and_eq_true, merged_l0_passed] at hdeterministic
  obtain ⟨⟨hl0, hl1⟩, hl2⟩ := hdeterministic
  have hevidence : (evidence_results deps evidence claim).flatMap (·.2) = [] := by
    rw [List.flatMap_eq_nil_iff, evidence_results]
    intro result hresult
    obtain ⟨raw_id, hraw, rfl⟩ := List.mem_map.1 hresult
    exact check_evidence_reasons (List.all_eq_true.1 hl0 raw_id hraw)
  have hcoverage : ((claim_l1 deps evidence claim).map (·.2)).getD [] = [] := by
    rw [claim_l1] at hl1 ⊢
    split
    · rename_i hlevel
      rw [if_pos hlevel] at hl1
      exact l1_coverage_reasons hl1
    · rfl
  have htyped : (deterministic_claim deps evidence claim).l2_typed_fact ≠ some false := by
    intro hfalse
    rw [hfalse] at hl2
    simp at hl2
  have hmodel : (l3_verdicts.get? (deterministic_claim deps evidence claim).claim.claim_id).map (·.entailed) ≠
      some false := by
    intro hfalse
    rw [hfalse] at hentailed
    simp at hentailed
  have hreasons : (deterministic_claim deps evidence claim).reasons = [] := by
    have hunfold : (deterministic_claim deps evidence claim).reasons =
        (evidence_results deps evidence claim).flatMap (·.2) ++ ((claim_l1 deps evidence claim).map (·.2)).getD [] ++
          if (deterministic_claim deps evidence claim).l2_typed_fact = some false then [REASON_TYPED_FACT_UNSUPPORTED]
          else [] := rfl
    rw [hunfold, hevidence, hcoverage, if_neg htyped]
    rfl
  rw [claim_receipt]
  dsimp only
  rw [hreasons, if_neg hmodel]
  rfl

end Reasons

section Issue

/-- A receipt that the verifier issued under a key, for whatever request and over whatever registry. -/
def Issued (hmac : Hmac) (key : String) (receipt : VerificationReceipt) : Prop :=
  ∃ (deps : VerifierDeps) (db : Database) (request : VerifyAnswerRequest) (requester : Requester)
    (client_id : Option String), deps.hmac_sha256 = hmac ∧ deps.signing_key = some key ∧
      (verify_answer deps db request requester client_id).1 = .ok receipt

variable {hmac : Hmac} {key : String} {receipt : VerificationReceipt}

/-- The overall result of an issued receipt is passed exactly if all its claims are, and then it holds no reason. -/
theorem Issued.overall (h : Issued hmac key receipt) :
    (receipt.overall = .passed ↔ ∀ claim ∈ receipt.claim_results, claim.result = .passed) ∧
      ∀ claim ∈ receipt.claim_results, claim.result = .passed → claim.failed_reasons = [] := by
  obtain ⟨deps, db, request, requester, client_id, -, -, hreceipt⟩ := h
  rw [verify_answer] at hreceipt
  cases hactive : fetch_active_version db with
  | none => simp [hactive] at hreceipt
  | some active =>
    rw [hactive] at hreceipt
    obtain rfl := Except.ok.inj hreceipt
    generalize resolve_evidence deps db request requester active = evidence
    rw [(claim_results_issue_receipt deps _).1, (claim_results_issue_receipt deps _).2, unsigned_receipt]
    dsimp only
    constructor
    · apply (overall_result_spec _).1
      rw [assemble_receipts, deterministic_pass, ne_eq, List.map_eq_nil_iff, List.map_eq_nil_iff]
      exact request.claims_ne
    · intro claim hclaim hpassed
      obtain ⟨entry, hentry, rfl⟩ := List.mem_map.1 hclaim
      obtain ⟨input, -, rfl⟩ := List.mem_map.1 hentry
      exact failed_reasons_of_passed hpassed

end Issue

section Trust

/-- Some receipt issued to the client passed and says the same as the one presented. -/
def Genuine (issued : Set VerificationReceipt) (client : ClientIdentity) (receipt : VerificationReceipt) : Prop :=
  ∃ original ∈ issued, original.client_id = some client.client_id ∧ original.overall = .passed ∧
    receipt.overall = original.overall ∧ receipt.answer_hash = original.answer_hash ∧
      receipt.graph_version = original.graph_version ∧ receipt.client_id = original.client_id ∧
        receipt.claim_results = original.claim_results

/-- Nobody but the holder of the key makes MACs: one that validates the payload of a presented receipt was made
for an issued receipt of that payload. -/
def Unforged (hmac : Hmac) (key : String) (issued : Set VerificationReceipt) (receipt : VerificationReceipt) : Prop :=
  receipt.signature = some (hmac key (canonical_payload receipt)) →
    ∃ original ∈ issued, canonical_payload original = canonical_payload receipt

/-- The gate trusts genuine receipts only, exactly as long as the receipts it accepts have no claim that failed
and no reason: the signature covers neither the overall result nor the reasons. -/
theorem trusted_genuine_iff {hmac : Hmac} {key : String} {issued : Set VerificationReceipt}
    (hissued : ∀ receipt ∈ issued, Issued hmac key receipt) {client : ClientIdentity}
    (hrequired : client.verification_required = true) {receipt : VerificationReceipt}
    (hunforged : Unforged hmac key issued receipt) :
    ((evaluate_platform_trust hmac (some key) client (some receipt)).status = .trusted →
        Genuine issued client receipt) ↔
      (Accepted hmac (some key) client receipt →
        ∀ claim ∈ receipt.claim_results, claim.result = .passed ∧ claim.failed_reasons = []) := by
  have htrusted : (evaluate_platform_trust hmac (some key) client (some receipt)).status = .trusted ↔
      Accepted hmac (some key) client receipt := by
    rw [trusted_iff hrequired]
    simp
  rw [htrusted]
  constructor
  · intro hgenuine haccepted claim hclaim
    obtain ⟨original, horiginal, -, hpassed, -, -, -, -, hresults⟩ := hgenuine haccepted
    obtain ⟨hall, hreasons⟩ := (hissued original horiginal).overall
    rw [hresults] at hclaim
    exact ⟨hall.1 hpassed claim hclaim, hreasons claim hclaim (hall.1 hpassed claim hclaim)⟩
  · intro hclaims haccepted
    obtain ⟨_, hkey, -, hsignature⟩ := haccepted.signature
    obtain rfl := Option.some.inj hkey
    obtain ⟨original, horiginal, hpayload⟩ := hunforged hsignature
    obtain ⟨hanswer, hversion, hclient, hresults⟩ := canonical_payload_inj hpayload
    obtain ⟨hall, hreasons⟩ := (hissued original horiginal).overall
    have hlength : original.claim_results.length = receipt.claim_results.length := by
      simpa using congrArg List.length hresults
    have hsame : receipt.claim_results = original.claim_results := by
      refine List.ext_getElem hlength.symm fun k hk hk' => ?_
      have hmem := List.getElem_mem hk
      have hmem' := List.getElem_mem hk'
      have heq : claim_payload original.claim_results[k] = claim_payload receipt.claim_results[k] := by
        have hget := congrArg (·[k]?) hresults
        simpa [hk, hk'] using hget
      obtain ⟨hid, hresult, hchecks⟩ := claim_payload_inj heq
      obtain ⟨hpassed, hnone⟩ := hclaims haccepted _ hmem
      have hnone' := hreasons _ hmem' (hresult.trans hpassed)
      exact ClaimReceipt.ext hid.symm hresult.symm hchecks.symm (hnone.trans hnone'.symm)
    have hpassed : original.overall = .passed := by
      apply hall.2
      intro claim hclaim
      rw [← hsame] at hclaim
      exact (hclaims haccepted claim hclaim).1
    exact ⟨original, horiginal, hclient.trans haccepted.client_id, hpassed, haccepted.overall.trans hpassed.symm,
      hanswer.symm, hversion.symm, hclient.symm, hsame⟩

end Trust

section Altered

def VerifierDeps.signed : VerifierDeps := { VerifierDeps.plain with signing_key := some "key" }

def official_app : ClientIdentity := { client_id := "app", verification_required := true, registered := true }

/-- One claim about the first file. -/
def one_claim (assertion : ClaimAssertion) : VerifyAnswerRequest := typed_answer (file_claim "c" assertion) []

/-- The receipt of a false claim is trusted once its overall result is overwritten. -/
theorem trusted_overall_altered : ∃ original,
    Issued (fun key payload => key ++ payload) "key" original ∧ original.overall = .failed ∧
      Unforged (fun key payload => key ++ payload) "key" {original} { original with overall := .passed } ∧
        (evaluate_platform_trust (fun key payload => key ++ payload) (some "key") official_app
          (some { original with overall := .passed })).status = .trusted ∧
            ¬ Genuine {original} official_app { original with overall := .passed } := by
  refine ⟨_, ⟨.signed, given_database, one_claim (.symbol_in_file "ghost" "file"), outsider, some "app", rfl, rfl,
    rfl⟩, by decide +kernel, fun _ => ⟨_, rfl, rfl⟩, ?_, ?_⟩
  · exact (trusted_iff rfl).2 ⟨_, rfl, rfl, ⟨"key", rfl, by decide, rfl⟩, rfl⟩
  · rintro ⟨original, horiginal, -, hpassed, -⟩
    rw [Set.mem_singleton_iff.1 horiginal] at hpassed
    exact absurd hpassed (by decide +kernel)

/-- The receipt of a true claim, presented as it was issued. -/
theorem trusted_genuine_iff_true_claim : ∃ original,
    Issued (fun key payload => key ++ payload) "key" original ∧ original.overall = .passed ∧
      (((evaluate_platform_trust (fun key payload => key ++ payload) (some "key") official_app
          (some original)).status = .trusted → Genuine {original} official_app original) ↔
        (Accepted (fun key payload => key ++ payload) (some "key") official_app original →
          ∀ claim ∈ original.claim_results, claim.result = .passed ∧ claim.failed_reasons = [])) := by
  have hissued : ∀ {original}, Issued (fun key payload => key ++ payload) "key" original →
      ∀ receipt ∈ ({original} : Set VerificationReceipt), Issued (fun key payload => key ++ payload) "key" receipt := by
    intro original h receipt hmem
    rw [Set.mem_singleton_iff.1 hmem]
    exact h
  have hsigned : ∃ original, Issued (fun key payload => key ++ payload) "key" original ∧
      original.overall = .passed :=
    ⟨_, ⟨.signed, given_database, one_claim (.file_imports_module "file" "file"), outsider, some "app", rfl, rfl, rfl⟩,
      by decide +kernel⟩
  obtain ⟨original, horiginal, hpassed⟩ := hsigned
  exact ⟨original, horiginal, hpassed, trusted_genuine_iff (hissued horiginal) rfl fun _ => ⟨original, rfl, rfl⟩⟩

end Altered

end AgenticKb.ContextBroker

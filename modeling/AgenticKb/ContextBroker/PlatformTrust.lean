import AgenticKb.ContextBroker.ReceiptSigning

open AgenticKb.Lib

namespace AgenticKb.ContextBroker

def TRUST_REASON_NO_RECEIPT : String := "verification_required_no_receipt"
def TRUST_REASON_UNSIGNED : String := "receipt_unsigned"
def TRUST_REASON_BAD_SIGNATURE : String := "receipt_signature_invalid"
def TRUST_REASON_CLIENT_MISMATCH : String := "receipt_client_mismatch"
def TRUST_REASON_NOT_PASSED : String := "receipt_overall_not_passed"

/-- The app behind a request. -/
structure ClientIdentity where
  client_id : String
  scopes : List String := []
  verification_required : Bool := false
  registered : Bool := false
deriving DecidableEq, Repr

inductive PlatformTrustStatus where
  | trusted | denied | not_required
deriving DecidableEq, Repr

structure PlatformTrustDecision where
  status : PlatformTrustStatus
  client_id : String
  verification_required : Bool
  reason : Option String := none
deriving DecidableEq, Repr

def deny (client : ClientIdentity) (reason : String) : PlatformTrustDecision :=
  { status := .denied, client_id := client.client_id, verification_required := true, reason := some reason }

/-- `verify_receipt_signature` under the value of the key's variable; an unset or empty one validates nothing. -/
def key_validates (hmac : Hmac) (signing_key : Option String) (client : ClientIdentity)
    (receipt : VerificationReceipt) : Bool :=
  match signing_key with
  | none => false
  | some key => key != "" && verify_receipt_signature hmac key (some client.client_id) receipt

def evaluate_platform_trust (hmac : Hmac) (signing_key : Option String) (client : ClientIdentity)
    (receipt : Option VerificationReceipt) : PlatformTrustDecision :=
  if !client.verification_required then
    { status := .not_required, client_id := client.client_id, verification_required := false }
  else
    match receipt with
    | none => deny client TRUST_REASON_NO_RECEIPT
    | some receipt =>
      if receipt.signature.isNone then deny client TRUST_REASON_UNSIGNED
      else if receipt.client_id != some client.client_id then deny client TRUST_REASON_CLIENT_MISMATCH
      else if !key_validates hmac signing_key client receipt then deny client TRUST_REASON_BAD_SIGNATURE
      else if receipt.overall != .passed then deny client TRUST_REASON_NOT_PASSED
      else { status := .trusted, client_id := client.client_id, verification_required := true }

/-- What the gate asks of a receipt. -/
structure Accepted (hmac : Hmac) (signing_key : Option String) (client : ClientIdentity)
    (receipt : VerificationReceipt) : Prop where
  client_id : receipt.client_id = some client.client_id
  signature : ∃ key ∈ signing_key, key ≠ "" ∧ receipt.signature = some (hmac key (canonical_payload receipt))
  overall : receipt.overall = .passed

/-- A client that needs a receipt is trusted exactly with one that the gate accepts. -/
theorem trusted_iff {hmac : Hmac} {signing_key : Option String} {client : ClientIdentity}
    (hrequired : client.verification_required = true) {receipt : Option VerificationReceipt} :
    (evaluate_platform_trust hmac signing_key client receipt).status = .trusted ↔
      ∃ presented ∈ receipt, Accepted hmac signing_key client presented := by
  have hvalidates : ∀ presented : VerificationReceipt, presented.client_id = some client.client_id →
      (key_validates hmac signing_key client presented = true ↔
        ∃ key ∈ signing_key, key ≠ "" ∧ presented.signature = some (hmac key (canonical_payload presented))) := by
    intro presented hclient
    cases signing_key with
    | none => simp [key_validates]
    | some key =>
      cases hsignature : presented.signature with
      | none => simp [key_validates, verify_receipt_signature, hsignature]
      | some signature => simp [key_validates, verify_receipt_signature, hsignature, hclient]
  unfold evaluate_platform_trust
  rw [hrequired]
  cases receipt with
  | none => simp [deny]
  | some presented =>
    simp only [Bool.not_true, Bool.false_eq_true, if_false, Option.mem_some_iff, exists_eq_left']
    constructor
    · intro h
      split at h
      · simp [deny] at h
      split at h
      · simp [deny] at h
      rename_i hclient
      split at h
      · simp [deny] at h
      rename_i hkey
      split at h
      · simp [deny] at h
      rename_i hoverall
      have hsame : presented.client_id = some client.client_id := by simpa using hclient
      exact ⟨hsame, (hvalidates presented hsame).1 (by simpa using hkey), by simpa using hoverall⟩
    · rintro ⟨hclient, hsignature, hoverall⟩
      have hkey := (hvalidates presented hclient).2 hsignature
      obtain ⟨key, -, -, hsigned⟩ := hsignature
      simp [hsigned, hclient, hkey, hoverall]

end AgenticKb.ContextBroker

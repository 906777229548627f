import AgenticKb.Lib.Json
import AgenticKb.Lib.Python
import AgenticKb.ContextBroker.Verification

open AgenticKb.Lib

namespace AgenticKb.ContextBroker

def MCP_SCHEMA_VERSION : String := "1.12.0"

def KEY_ID_LABEL : String := "agentic-kb:verify-receipt:key-id:v1"

/-- `hmac.new(key, payload, sha256).hexdigest()`. -/
abbrev Hmac := String → String → String

/-- The dump of the checks; their keys are in the order of `sort_keys`, here and below. -/
def checks_payload (checks : ClaimChecks) : Json :=
  .obj [
    ("L0_acl_visible", .bool checks.L0_acl_visible),
    ("L0_exists", .bool checks.L0_exists),
    ("L0_in_active_version", .bool checks.L0_in_active_version),
    ("L0_in_requester_ledger", .bool checks.L0_in_requester_ledger),
    ("L0_not_stale", .bool checks.L0_not_stale),
    ("L0_supporting_trust_ok", .bool checks.L0_supporting_trust_ok),
    ("L1_coverage", .option_bool checks.L1_coverage),
    ("L2_typed_fact", .option_bool checks.L2_typed_fact),
    ("L3_entailment", .option_bool checks.L3_entailment),
    ("schema_version", .str MCP_SCHEMA_VERSION)]

def claim_payload (claim : ClaimReceipt) : Json :=
  .obj [
    ("checks", checks_payload claim.checks),
    ("claim_id", .str claim.claim_id),
    ("result", .str claim.result.text)]

/-- What the signature covers. -/
def canonical_payload (receipt : VerificationReceipt) : String :=
  json_dumps <| .obj [
    ("answer_hash", .str receipt.answer_hash),
    ("claim_results", .arr (receipt.claim_results.map claim_payload)),
    ("client_id", .option_str receipt.client_id),
    ("graph_version", .str receipt.graph_version)]

/-- A fingerprint of the signing key. -/
def compute_key_id (hmac : Hmac) (key : String) : String := take_chars (hmac key KEY_ID_LABEL) 16

def sign_receipt (hmac : Hmac) (key : String) (receipt : VerificationReceipt) : VerificationReceipt :=
  { receipt with
    signature := some (hmac key (canonical_payload receipt))
    key_id := some (compute_key_id hmac key) }

def verify_receipt_signature (hmac : Hmac) (key : String) (expected_client_id : Option String)
    (receipt : VerificationReceipt) : Bool :=
  match receipt.signature with
  | none => false
  | some signature =>
    if expected_client_id.isSome && receipt.client_id != expected_client_id then false
    else signature == hmac key (canonical_payload receipt)

end AgenticKb.ContextBroker

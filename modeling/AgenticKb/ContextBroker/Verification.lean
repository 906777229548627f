import AgenticKb.ContextBroker.Database

open AgenticKb.Lib

namespace AgenticKb.ContextBroker

inductive VerifierLevel where
  | L0 | L1 | L2 | L3
deriving DecidableEq, Repr

def VerifierLevel.text : VerifierLevel → String
  | .L0 => "L0"
  | .L1 => "L1"
  | .L2 => "L2"
  | .L3 => "L3"

inductive ClaimResult where
  | passed | failed
deriving DecidableEq, Repr

def ClaimResult.text : ClaimResult → String
  | .passed => "passed"
  | .failed => "failed"

inductive OverallResult where
  | passed | failed | partly
deriving DecidableEq, Repr

def OverallResult.text : OverallResult → String
  | .passed => "passed"
  | .failed => "failed"
  | .partly => "partial"

/-- What a claim may assert of the ledger. -/
inductive ClaimAssertion where
  | symbol_in_file (symbol file : String)
  | file_imports_module (file module : String)
  | edge_between (edge_type from_id to_id : String)
deriving DecidableEq, Repr

/-- One claim with the evidence ids it cites; the schema refuses a claim that cites nothing. -/
structure ClaimInput where
  claim_id : String
  text : String
  evidence_ids : List String
  quote : Option String := none
  assertion : Option ClaimAssertion := none
  evidence_ids_ne : evidence_ids ≠ [] := by decide
deriving DecidableEq, Repr

/-- The schema refuses an answer without claims and a request without levels. -/
structure VerifyAnswerRequest where
  answer_id : String
  claims : List ClaimInput
  /-- The version to verify against; `none` stands for the one being served. -/
  graph_version : Option String := none
  verifier_levels : List VerifierLevel := [.L0]
  claims_ne : claims ≠ [] := by exact List.cons_ne_nil _ _
  verifier_levels_ne : verifier_levels ≠ [] := by decide
deriving DecidableEq, Repr

/-- The checks of one claim; a level that gave no verdict is `none`. -/
structure ClaimChecks where
  L0_exists : Bool
  L0_in_active_version : Bool
  L0_acl_visible : Bool
  L0_in_requester_ledger : Bool
  L0_not_stale : Bool
  L0_supporting_trust_ok : Bool
  L1_coverage : Option Bool := none
  L2_typed_fact : Option Bool := none
  L3_entailment : Option Bool := none
deriving DecidableEq, Repr

@[ext]
structure ClaimReceipt where
  claim_id : String
  result : ClaimResult
  checks : ClaimChecks
  failed_reasons : List String := []
deriving DecidableEq, Repr

structure VerificationReceipt where
  answer_hash : String
  graph_version : String
  issued_at : Timestamp
  verifier_levels_run : List VerifierLevel
  overall : OverallResult
  claim_results : List ClaimReceipt
  client_id : Option String := none
  signature : Option String := none
  key_id : Option String := none
deriving DecidableEq, Repr

end AgenticKb.ContextBroker

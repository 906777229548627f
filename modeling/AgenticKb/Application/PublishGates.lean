import Mathlib.Algebra.Order.Ring.Unbundled.Rat
import AgenticKb.Indexing.Projection

open AgenticKb.Lib

namespace AgenticKb

/-- The closed edge-type vocabulary. -/
def ALLOWED_EDGE_TYPES : List EdgeType :=
  [.imports, .calls, .inherits, .exposes, .tests, .documents, .implements, .mentions, .exposed_as,
    .requests, .defined_in, .uses, .references, .aliases]

def EXTRACTOR_ERROR_RATE_THRESHOLD : Rat := 1 / 100
def SYMBOL_COUNT_DELTA_THRESHOLD : Rat := 25 / 100

/-- The outcome of one gate. -/
structure GateResult where
  name : String
  passed : Bool
  measured_value : Option Rat := none
  skipped : Bool := false
deriving DecidableEq, Repr

/-- The completed runs of a label, newest first. -/
def completed_runs (r : Registry) (kb_version : String) : List KbBuildRun :=
  sorted (fun a b => decide (b.build_seq ≤ a.build_seq))
    (r.runs.filter fun run => run.kb_version == kb_version && run.status == .completed)

/-- The latest completed run of the label under gate. -/
def completed_run (r : Registry) (kb_version : String) : Option KbBuildRun :=
  (completed_runs r kb_version).head?

/-- Its `build_seq`; `none` where the source raises `ValueError`. -/
def build_seq_for (r : Registry) (kb_version : String) : Option Nat :=
  (completed_run r kb_version).map (·.build_seq)

/-- The `build_seq` still serving under another label; raises on several active rows. -/
def previous_active_seq (r : Registry) (kb_version : String) : Option (Option Nat) :=
  match r.runs.filter fun run => run.status == .active && run.kb_version != kb_version with
  | [] => some none
  | [run] => some (some run.build_seq)
  | _ => none

def count_artifacts (r : Registry) (seq : Nat) (artifact_type : ArtifactType) : Nat :=
  r.artifacts.countP fun a => decide (a.MemberAt seq) && a.artifact_type == artifact_type

/-- Failed extractions over attempted ones, of the served set at `seq`. -/
def extractor_error_rate (r : Registry) (seq failures : Nat) : GateResult :=
  let attempted := count_artifacts r seq .code_file + failures
  let rate : Rat := if attempted = 0 then 0 else failures / attempted
  { name := "extractor_error_rate", passed := rate ≤ EXTRACTOR_ERROR_RATE_THRESHOLD
    measured_value := some rate }

/-- The change of the number of served symbols against the previous served set, unless overridden. -/
def symbol_count_delta (r : Registry) (seq : Nat) (allow_large_delta : Bool)
    (previous_seq : Option Nat) : GateResult :=
  match previous_seq with
  | none => { name := "symbol_count_delta", passed := true, measured_value := some 0 }
  | some previous =>
    let new_symbols : Rat := count_artifacts r seq .code_symbol
    let prev_symbols : Rat := count_artifacts r previous .code_symbol
    let delta := if prev_symbols = 0 then 0
      else max (new_symbols - prev_symbols) (prev_symbols - new_symbols) / prev_symbols
    { name := "symbol_count_delta", measured_value := some delta
      passed := decide (delta ≤ SYMBOL_COUNT_DELTA_THRESHOLD) || allow_large_delta }

/-- A served artifact with a body whose source row is missing or tombstoned. -/
def dangling (r : Registry) (seq : Nat) (a : KnowledgeArtifact) : Bool :=
  decide (a.MemberAt seq) && a.body_text.isSome && (r.source_of a.source_id).all (·.is_deleted)

def no_dangling_citations (r : Registry) (seq : Nat) : GateResult :=
  let found := r.artifacts.countP (dangling r seq)
  { name := "no_dangling_citations", passed := found == 0, measured_value := some found }

def member_ids (r : Registry) (seq : Nat) : List Uuid :=
  (r.artifacts.filter fun a => decide (a.MemberAt seq)).map (·.artifact_id)

/-- A served edge with an endpoint that is not served. -/
def ghost (r : Registry) (seq : Nat) (e : KnowledgeEdge) : Bool :=
  decide (e.MemberAt seq) && (!(member_ids r seq).contains e.from_artifact_id ||
    !(member_ids r seq).contains e.to_artifact_id)

def edge_evidence_integrity (r : Registry) (seq : Nat) : GateResult :=
  let bad_type := r.edges.countP fun e =>
    decide (e.MemberAt seq) && !ALLOWED_EDGE_TYPES.contains e.edge_type
  let offending := bad_type + r.edges.countP (ghost r seq)
  { name := "edge_evidence_integrity", passed := offending == 0, measured_value := some offending }

/-- A served linker edge without an evidence pointer. -/
def missing_evidence (seq : Nat) (e : KnowledgeEdge) : Bool :=
  decide (e.MemberAt seq) && e.source == some .linker && e.evidence.is_null

def relation_precision (r : Registry) (seq : Nat) : GateResult :=
  let found := r.edges.countP (missing_evidence seq)
  { name := "relation_precision", passed := found == 0, measured_value := some found }

/-- A gate reads the registry for one label; `none` is a gate that raises. -/
abbrev Gate := Registry → String → Option GateResult

def index_consistency_gate (index : SearchIndex) : Gate := fun r _ =>
  some { name := "index_consistency", passed := validate_index_consistency r index }

def extractor_error_rate_gate : Gate := fun r kb_version => do
  let seq ← build_seq_for r kb_version
  some (extractor_error_rate r seq (((completed_run r kb_version).map (·.extractor_failures)).getD 0))

def symbol_count_delta_gate : Gate := fun r kb_version => do
  let seq ← build_seq_for r kb_version
  let previous_seq ← previous_active_seq r kb_version
  some (symbol_count_delta r seq (((completed_run r kb_version).map (·.allow_large_delta)).getD false)
    previous_seq)

def no_dangling_citations_gate : Gate := fun r kb_version =>
  (build_seq_for r kb_version).map (no_dangling_citations r)

def edge_evidence_integrity_gate : Gate := fun r kb_version =>
  (build_seq_for r kb_version).map (edge_evidence_integrity r)

def relation_precision_gate : Gate := fun r kb_version =>
  (build_seq_for r kb_version).map (relation_precision r)

/-- The recall proxy is logged only: the gate never blocks. -/
def evidence_recall_gate : Gate := fun r kb_version =>
  (build_seq_for r kb_version).map fun _ => { name := "evidence_recall", passed := true, skipped := true }

/-- Every completed run of the label records the gate that failed and its value. -/
def record_failure (r : Registry) (kb_version : String) (result : GateResult) : Registry :=
  { r with
    runs := update_where r.runs
      (fun run => run.kb_version == kb_version && run.status == .completed) fun run =>
        { run with failed_gate := some result.name, gate_measured_value := result.measured_value } }

/-- Run the gates in order; the first failure that is not skipped is recorded and rejects. -/
def compose_gates (gates : List Gate) (r : Registry) (kb_version : String) : Option (Registry × Bool) :=
  match gates with
  | [] => some (r, true)
  | gate :: gates =>
    match gate r kb_version with
    | none => none
    | some result =>
      if result.skipped || result.passed then compose_gates gates r kb_version
      else some (record_failure r kb_version result, false)

def publish_gates (index : SearchIndex) : List Gate :=
  [index_consistency_gate index, extractor_error_rate_gate, symbol_count_delta_gate,
    no_dangling_citations_gate, edge_evidence_integrity_gate, relation_precision_gate,
    evidence_recall_gate]

def make_publish_gate_validator (index : SearchIndex) : Registry → String → Option (Registry × Bool) :=
  compose_gates (publish_gates index)

abbrev ValidationHook := Registry → String → Option (Registry × Bool)

/-- `UPDATE kb_build_run` of the run with this id. -/
def set_status (r : Registry) (build_id : Uuid) (status : RunStatus) : Registry :=
  { r with
    runs := update_where r.runs (fun run => run.build_id == build_id) fun run => { run with status } }

/-- Every active run is superseded. -/
def supersede_active (r : Registry) : Registry :=
  { r with
    runs := update_where r.runs (fun run => run.status == .active) fun run =>
      { run with status := .superseded } }

/-- Promote a completed build if and only if validation passes; `none` is a call that raises. -/
def activate_kb_version (r : Registry) (build_id : Uuid) (validate : ValidationHook) :
    Option (Registry × Bool) := do
  let run ← r.runs.find? fun run => run.build_id == build_id
  if run.status != .completed then none
  else
    let (r, passed) ← validate r run.kb_version
    if passed then some (set_status (supersede_active r) build_id .active, true)
    else some (set_status r build_id .validation_failed, false)

end AgenticKb

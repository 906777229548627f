import AgenticKb.Effects.Build
import AgenticKb.Effects.Bookkeeping
import AgenticKb.Application.PublishGates

open AgenticKb.Lib

namespace AgenticKb

/-- What the registry goes through: builds, and activations of a build against an index. -/
inductive Operation where
  | build (b : Build)
  | activate (build_id : Uuid) (index : SearchIndex)

/-- Activating a build behind the publish gates. -/
def activation (r : Registry) (build_id : Uuid) (index : SearchIndex) : Option (Registry × Bool) :=
  activate_kb_version r build_id (make_publish_gate_validator index)

/-- An activation that raises is rolled back. -/
def operate (p : Platform) (r : Registry) : Operation → Registry
  | .build b => next p cached_generation r b
  | .activate build_id index => ((activation r build_id index).map (·.1)).getD r

def active_runs (r : Registry) : List Uuid := (r.runs.filter (·.status == .active)).map (·.build_id)

/-- The statuses of all runs but one. -/
def other_statuses (r : Registry) (build_id : Uuid) : List (Uuid × RunStatus) :=
  (r.runs.filter (·.build_id != build_id)).map fun run => (run.build_id, run.status)

/-- An artifact that version `seq` serves and the index should hold. -/
def projectable_at (seq : Nat) (entry : KnowledgeArtifact × SourceItem) : Bool :=
  let (a, s) := entry
  !s.is_deleted && PROJECTABLE_ARTIFACT_TYPES.contains a.artifact_type &&
    (a.body_text.isSome || a.search_text.isSome) && decide (a.MemberAt seq)

/-- The index holds the documents of version `seq`, at their hashes, and no other. -/
def IndexServes (r : Registry) (index : SearchIndex) (seq : Nat) : Prop :=
  (∀ entry ∈ r.joined, projectable_at seq entry = true →
      (index_state index).get? entry.1.artifact_id = some entry.1.artifact_hash) ∧
    ∀ doc ∈ index_state index, ∃ entry ∈ r.joined, projectable_at seq entry = true ∧ entry.1.artifact_id = doc.1

instance (r : Registry) (index : SearchIndex) (seq : Nat) : Decidable (IndexServes r index seq) :=
  inferInstanceAs (Decidable ((∀ entry ∈ r.joined, _ → _) ∧ ∀ doc ∈ _, ∃ entry ∈ r.joined, _ ∧ _))

/-- Every publish gate that blocks holds of what one run's version serves; growth is measured against
whatever run is active. -/
structure GatesHold (r : Registry) (index : SearchIndex) (run : KbBuildRun) : Prop where
  index_consistency : IndexServes r index run.build_seq
  extractor_error_rate : (extractor_error_rate r run.build_seq run.extractor_failures).passed = true
  symbol_count_delta : ∀ active ∈ r.runs, active.status = .active →
    (symbol_count_delta r run.build_seq run.allow_large_delta (some active.build_seq)).passed = true
  no_dangling_citations : (no_dangling_citations r run.build_seq).passed = true
  edge_evidence_integrity : (edge_evidence_integrity r run.build_seq).passed = true
  relation_precision : (relation_precision r run.build_seq).passed = true

instance (r : Registry) (index : SearchIndex) (run : KbBuildRun) : Decidable (GatesHold r index run) :=
  decidable_of_iff (IndexServes r index run.build_seq ∧
      (extractor_error_rate r run.build_seq run.extractor_failures).passed = true ∧
      (∀ active ∈ r.runs, active.status = .active →
        (symbol_count_delta r run.build_seq run.allow_large_delta (some active.build_seq)).passed = true) ∧
      (no_dangling_citations r run.build_seq).passed = true ∧
      (edge_evidence_integrity r run.build_seq).passed = true ∧
      (relation_precision r run.build_seq).passed = true)
    ⟨fun h => ⟨h.1, h.2.1, h.2.2.1, h.2.2.2.1, h.2.2.2.2.1, h.2.2.2.2.2⟩,
      fun h => ⟨h.1, h.2, h.3, h.4, h.5, h.6⟩⟩

/-- An activation that succeeds has checked the requested run and makes it the only active one; any
other leaves the status of every other run alone. -/
structure ActivationSound (p : Platform) (r : Registry) (build_id : Uuid) (index : SearchIndex) : Prop where
  activated : (activation r build_id index).any (·.2) = true →
    (∃ run ∈ r.runs, run.build_id = build_id ∧ GatesHold r index run) ∧
      active_runs (operate p r (.activate build_id index)) = [build_id]
  kept : (activation r build_id index).any (·.2) = false →
    active_runs (operate p r (.activate build_id index)) = active_runs r ∧
      other_statuses (operate p r (.activate build_id index)) build_id = other_statuses r build_id

def OperationSound (p : Platform) (r : Registry) : Operation → Prop
  | .build _ => True
  | .activate build_id index => ActivationSound p r build_id index

instance (p : Platform) (r : Registry) (operation : Operation) : Decidable (OperationSound p r operation) :=
  match operation with
  | .build _ => .isTrue trivial
  | .activate build_id index =>
    decidable_of_iff
      (((activation r build_id index).any (·.2) = true →
        (∃ run ∈ r.runs, run.build_id = build_id ∧ GatesHold r index run) ∧
          active_runs (operate p r (.activate build_id index)) = [build_id]) ∧
        ((activation r build_id index).any (·.2) = false →
          active_runs (operate p r (.activate build_id index)) = active_runs r ∧
            other_statuses (operate p r (.activate build_id index)) build_id = other_statuses r build_id))
      ⟨fun h => ⟨h.1, h.2⟩, fun h => ⟨h.activated, h.kept⟩⟩

/-- What the gates look at is the run to be activated: it is the newest completed run of its label, no
document has entered or left since, and the active run has another label. -/
def GatesFit (r : Registry) (run : KbBuildRun) : Prop :=
  completed_run r run.kb_version = some run ∧
    (∀ entry ∈ r.joined, projectable entry = projectable_at run.build_seq entry) ∧
    ∀ active ∈ r.runs, active.status = .active → active.kb_version ≠ run.kb_version

instance (r : Registry) (run : KbBuildRun) : Decidable (GatesFit r run) :=
  inferInstanceAs (Decidable (_ ∧ (∀ entry ∈ r.joined, _) ∧ ∀ active ∈ r.runs, _ → _))

/-- A completed run is activated only where the gates fit it. -/
def OperationFits (r : Registry) : Operation → Prop
  | .build _ => True
  | .activate build_id _ => ∀ run ∈ r.runs, run.build_id = build_id → run.status = .completed → GatesFit r run

instance (r : Registry) (operation : Operation) : Decidable (OperationFits r operation) :=
  match operation with
  | .build _ => .isTrue trivial
  | .activate build_id _ =>
    inferInstanceAs (Decidable (∀ run ∈ r.runs, run.build_id = build_id → run.status = .completed → GatesFit r run))

section Gates

variable {r r' : Registry} {index : SearchIndex} {kb_version : String}

/-- Where no gate fails, all have passed, and the registry is as it was. -/
theorem compose_gates_passed {gates : List Gate} (h : compose_gates gates r kb_version = some (r', true)) :
    r' = r ∧ ∀ gate ∈ gates, ∃ result ∈ gate r kb_version, result.skipped = true ∨ result.passed = true := by
  induction gates with
  | nil =>
    simp only [compose_gates, Option.some.injEq, Prod.mk.injEq, and_true] at h
    exact ⟨h.symm, by simp⟩
  | cons gate gates ih =>
    simp only [compose_gates] at h
    split at h
    · simp at h
    · rename_i result hresult
      split at h
      · rename_i hpassed
        obtain ⟨hsame, hrest⟩ := ih h
        refine ⟨hsame, fun gate' hgate' => ?_⟩
        rcases List.mem_cons.1 hgate' with rfl | hmem
        · exact ⟨result, hresult, by simpa using hpassed⟩
        · exact hrest gate' hmem
      · simp at h

/-- Where one fails, only the record of the failure is written. -/
theorem compose_gates_failed {gates : List Gate} (h : compose_gates gates r kb_version = some (r', false)) :
    ∃ result, r' = record_failure r kb_version result := by
  induction gates with
  | nil => simp [compose_gates] at h
  | cons gate gates ih =>
    simp only [compose_gates] at h
    split at h
    · simp at h
    · rename_i result hresult
      split at h
      · exact ih h
      · simp only [Option.some.injEq, Prod.mk.injEq, and_true] at h
        exact ⟨result, h.symm⟩

/-- An index the consistency gate lets through serves a version whose documents are the live ones. -/
theorem indexServes_of_consistent {seq : Nat}
    (hsame : ∀ entry ∈ r.joined, projectable entry = projectable_at seq entry)
    (h : validate_index_consistency r index = true) : IndexServes r index seq := by
  simp only [validate_index_consistency, load_doc_hashes, Bool.and_eq_true, List.isEmpty_iff,
    List.filter_eq_nil_iff, List.mem_map, List.mem_filter, forall_exists_index, and_imp,
    Option.isNone_iff_eq_none, Option.any_eq_true, bne_iff_ne, not_exists] at h
  obtain ⟨⟨hmissing, horphaned⟩, hdrifted⟩ := h
  constructor
  · intro entry hentry hserved
    have hlive : projectable entry = true := (hsame entry hentry).trans hserved
    cases hget : (index_state index).get? entry.1.artifact_id with
    | none => exact absurd hget (hmissing _ entry hentry hlive rfl)
    | some hash =>
      have hdrift := hdrifted _ entry hentry hlive rfl hash
      simp only [hget, true_and, not_not] at hdrift
      rw [hdrift]
  · intro doc hdoc
    have hknown := horphaned doc hdoc
    obtain ⟨hash, hhash⟩ := Option.ne_none_iff_exists'.1 hknown
    obtain ⟨entry, hentry, heq⟩ := List.mem_map.1 (Dict.mem_of_get? hhash)
    obtain ⟨hjoined, hlive⟩ := List.mem_filter.1 hentry
    exact ⟨entry, hjoined, (hsame entry hjoined).symm.trans hlive, congrArg Prod.fst heq⟩

/-- The baseline of the growth gate is the active run, if that has another label. -/
theorem previous_active_seq_eq {active : KbBuildRun} {previous : Option Nat} (hactive : active ∈ r.runs)
    (hstatus : active.status = .active) (hlabel : active.kb_version ≠ kb_version)
    (h : previous_active_seq r kb_version = some previous) : previous = some active.build_seq := by
  have hmem : active ∈ r.runs.filter fun run => run.status == .active && run.kb_version != kb_version :=
    List.mem_filter.2 ⟨hactive, by simp [hstatus, hlabel]⟩
  unfold previous_active_seq at h
  split at h
  · rename_i hnil
    simp [hnil] at hmem
  · rename_i run hrun
    rw [hrun, List.mem_singleton] at hmem
    rw [hmem, ← Option.some.inj h]
  · simp at h

/-- Gates that fit a run and let it through hold of it. -/
theorem gatesHold_of_passed {run : KbBuildRun} (hfit : GatesFit r run)
    (h : ∀ gate ∈ publish_gates index, ∃ result ∈ gate r run.kb_version,
      result.skipped = true ∨ result.passed = true) : GatesHold r index run := by
  obtain ⟨hrun, hsame, hlabels⟩ := hfit
  have hseq : build_seq_for r run.kb_version = some run.build_seq := by
    rw [build_seq_for, hrun]
    rfl
  simp only [publish_gates, List.forall_mem_cons, List.not_mem_nil, IsEmpty.forall_iff, implies_true, and_true,
    index_consistency_gate, extractor_error_rate_gate, symbol_count_delta_gate, no_dangling_citations_gate,
    edge_evidence_integrity_gate, relation_precision_gate, hseq, hrun, Option.bind_eq_bind,
    Option.bind_some, Option.map_some, Option.getD_some, Option.mem_def, Option.some.injEq, exists_eq_left',
    Option.bind_eq_some_iff] at h
  obtain ⟨hindex, hrate, ⟨result, ⟨previous, hprevious, rfl⟩, hdelta⟩, hdangling, hedges, hrelations, -⟩ := h
  refine ⟨indexServes_of_consistent hsame (by simpa using hindex), by simpa [extractor_error_rate] using hrate,
    fun active hactive hstatus => ?_, by simpa [no_dangling_citations] using hdangling,
    by simpa [edge_evidence_integrity] using hedges, by simpa [relation_precision] using hrelations⟩
  obtain rfl := previous_active_seq_eq hactive hstatus (hlabels active hactive hstatus) hprevious
  exact hdelta.resolve_left (by simp [symbol_count_delta])

end Gates

section Statuses

variable {r : Registry} {build_id : Uuid}

/-- Every run has an id of its own. -/
structure RunIds (p : Platform) (r : Registry) : Prop where
  nodup : (r.runs.map (·.build_id)).Nodup
  drawn : ∀ run ∈ r.runs, ∃ i < r.uuids, p.gen_random_uuid i = run.build_id

theorem RunIds.update {p : Platform} {r' : Registry} (h : RunIds p r)
    (hids : r'.runs.map (·.build_id) = r.runs.map (·.build_id)) (huuids : r'.uuids = r.uuids) : RunIds p r' := by
  refine ⟨hids ▸ h.nodup, fun run hrun => ?_⟩
  have hmem : run.build_id ∈ r.runs.map (·.build_id) := hids ▸ List.mem_map_of_mem hrun
  obtain ⟨run', hrun', hid⟩ := List.mem_map.1 hmem
  obtain ⟨i, hi, heq⟩ := h.drawn run' hrun'
  exact ⟨i, huuids ▸ hi, heq.trans hid⟩

private theorem map_build_id_update {runs : List KbBuildRun} {sel : KbBuildRun → Bool}
    {set : KbBuildRun → KbBuildRun} (hset : ∀ run, (set run).build_id = run.build_id) :
    (update_where runs sel set).map (·.build_id) = runs.map (·.build_id) := by
  rw [update_where, List.map_map]
  refine List.map_congr_left fun run _ => ?_
  simp only [Function.comp_apply]
  split
  · exact hset run
  · rfl

section Maps

variable {r' : Registry} {g : KbBuildRun → KbBuildRun}

private theorem active_runs_map (hruns : r'.runs = r.runs.map g) (hid : ∀ run, (g run).build_id = run.build_id) :
    active_runs r' = (r.runs.filter fun run => (g run).status == .active).map (·.build_id) := by
  rw [active_runs, hruns, List.filter_map, List.map_map]
  exact List.map_congr_left fun run _ => hid run

private theorem other_statuses_map (hruns : r'.runs = r.runs.map g) (hid : ∀ run, (g run).build_id = run.build_id)
    (hstatus : ∀ run, run.build_id ≠ build_id → (g run).status = run.status) :
    other_statuses r' build_id = other_statuses r build_id := by
  have hfilter : (fun run => run.build_id != build_id) ∘ g = fun run => run.build_id != build_id := by
    funext run
    simp only [Function.comp_apply, hid]
  rw [other_statuses, hruns, List.filter_map, List.map_map, hfilter]
  refine List.map_congr_left fun run hrun => ?_
  have hne : run.build_id ≠ build_id := by simpa using (List.mem_filter.1 hrun).2
  simp only [Function.comp_apply, hid, hstatus run hne]

end Maps

/-- The run that was made active is the only one. -/
theorem active_runs_set_active (hnodup : (r.runs.map (·.build_id)).Nodup) {run : KbBuildRun}
    (hrun : run ∈ r.runs) : active_runs (set_status (supersede_active r) run.build_id .active) = [run.build_id] := by
  set superseded : KbBuildRun → KbBuildRun := fun run =>
    if run.status == .active then { run with status := .superseded } else run with hsuperseded
  set g : KbBuildRun → KbBuildRun := fun other =>
    if (superseded other).build_id == run.build_id then { superseded other with status := .active }
    else superseded other with hg
  have hruns : (set_status (supersede_active r) run.build_id .active).runs = r.runs.map g := by
    simp only [set_status, supersede_active, update_where, List.map_map]
    rfl
  have hsid : ∀ other, (superseded other).build_id = other.build_id := by
    intro other
    simp only [hsuperseded]
    split <;> rfl
  have hid : ∀ other, (g other).build_id = other.build_id := by
    intro other
    simp only [hg]
    split <;> exact hsid other
  have hactive : ∀ other, ((g other).status == .active) = (other.build_id == run.build_id) := by
    intro other
    simp only [hg, hsid]
    split
    · rename_i heq
      rw [heq]
      rfl
    · rename_i hne
      simp only [Bool.not_eq_true] at hne
      rw [hne]
      simp only [hsuperseded]
      split
      · rfl
      · rename_i hinactive
        simpa using hinactive
  have hone : ((r.runs.map (·.build_id)).filter (· == run.build_id)) = [run.build_id] := by
    rw [List.filter_beq, List.count_eq_one_of_mem hnodup (List.mem_map_of_mem hrun)]
    rfl
  rw [active_runs_map hruns hid, funext hactive, ← hone, List.filter_map]
  rfl

/-- A rejected run was not active, and no other run gets another status. -/
theorem kept_of_rejected (hnodup : (r.runs.map (·.build_id)).Nodup) {run : KbBuildRun} (hrun : run ∈ r.runs)
    (hcompleted : run.status = .completed) (kb_version : String) (result : GateResult) :
    let r' := set_status (record_failure r kb_version result) run.build_id .validation_failed
    active_runs r' = active_runs r ∧ other_statuses r' run.build_id = other_statuses r run.build_id := by
  set recorded : KbBuildRun → KbBuildRun := fun run =>
    if run.kb_version == kb_version && run.status == .completed then
      { run with failed_gate := some result.name, gate_measured_value := result.measured_value }
    else run with hrecorded
  set g : KbBuildRun → KbBuildRun := fun other =>
    if (recorded other).build_id == run.build_id then { recorded other with status := .validation_failed }
    else recorded other with hg
  have hkept : ∀ other, (recorded other).build_id = other.build_id ∧ (recorded other).status = other.status := by
    intro other
    simp only [hrecorded]
    split <;> exact ⟨rfl, rfl⟩
  have hid : ∀ other, (g other).build_id = other.build_id := by
    intro other
    simp only [hg]
    split <;> exact (hkept other).1
  have hstatus : ∀ other, other.build_id ≠ run.build_id → (g other).status = other.status := by
    intro other hne
    simp only [hg, (hkept other).1, beq_iff_eq, if_neg hne, (hkept other).2]
  intro r'
  have hruns : r'.runs = r.runs.map g := by
    simp only [r', set_status, record_failure, update_where, List.map_map]
    rfl
  refine ⟨?_, other_statuses_map hruns hid hstatus⟩
  rw [active_runs_map hruns hid, active_runs]
  congr 1
  refine List.filter_congr fun other hother => ?_
  by_cases hother_id : other.build_id = run.build_id
  · obtain rfl := eq_of_key_eq hnodup hother hrun hother_id
    simp [hg, (hkept other).1, hcompleted]
  · rw [hstatus other hother_id]

end Statuses

section Activate

variable {p : Platform} {r : Registry} {build_id : Uuid} {index : SearchIndex}

/-- What an activation that does not raise has done. -/
theorem activation_cases {result : Registry × Bool} (h : activation r build_id index = some result) :
    ∃ run ∈ r.runs, run.build_id = build_id ∧ run.status = .completed ∧
      ∃ checked, compose_gates (publish_gates index) r run.kb_version = some checked ∧
        result = (if checked.2 then set_status (supersede_active checked.1) build_id .active
          else set_status checked.1 build_id .validation_failed, checked.2) := by
  simp only [activation, activate_kb_version, Option.bind_eq_bind, Option.bind_eq_some_iff] at h
  obtain ⟨run, hfind, h⟩ := h
  split at h
  · simp at h
  · rename_i hstatus
    simp only [Option.bind_eq_some_iff] at h
    obtain ⟨checked, hchecked, h⟩ := h
    refine ⟨run, List.mem_of_find?_eq_some hfind, by simpa using List.find?_some hfind, by simpa using hstatus,
      checked, hchecked, ?_⟩
    obtain ⟨checked_registry, passed⟩ := checked
    dsimp only at h ⊢
    cases passed <;> exact (Option.some.inj h).symm

/-- One activation. -/
theorem activationSound_of_fits (hids : RunIds p r) (hfits : OperationFits r (.activate build_id index)) :
    ActivationSound p r build_id index := by
  cases hactivation : activation r build_id index with
  | none =>
    have hkept : operate p r (.activate build_id index) = r := by simp [operate, hactivation]
    exact ⟨by simp [hactivation], fun _ => by rw [hkept]; exact ⟨rfl, rfl⟩⟩
  | some result =>
    have hnext : operate p r (.activate build_id index) = result.1 := by simp [operate, hactivation]
    obtain ⟨run, hrun, rfl, hcompleted, ⟨checked, passed⟩, hchecked, rfl⟩ := activation_cases hactivation
    constructor
    · intro hpassed
      simp only [hactivation, Option.any_some] at hpassed
      subst hpassed
      obtain ⟨rfl, hgates⟩ := compose_gates_passed hchecked
      rw [hnext, if_pos rfl]
      exact ⟨⟨run, hrun, rfl, gatesHold_of_passed (hfits run hrun rfl hcompleted) hgates⟩,
        active_runs_set_active hids.nodup hrun⟩
    · intro hfailed
      simp only [hactivation, Option.any_some] at hfailed
      subst hfailed
      obtain ⟨result, rfl⟩ := compose_gates_failed hchecked
      rw [hnext, if_neg (by simp)]
      exact kept_of_rejected hids.nodup hrun hcompleted run.kb_version result

end Activate

section Operations

variable {p : Platform} {r : Registry}

/-- Builds draw the id of their run, activations keep those there are. -/
theorem runIds_operate (hinj : Function.Injective p.gen_random_uuid) (hids : RunIds p r)
    (operation : Operation) : RunIds p (operate p r operation) := by
  cases operation with
  | build b =>
    obtain ⟨huuids, status, extractor_failures, hruns⟩ := runs_next p r b
    have hmap : (next p cached_generation r b).runs.map (·.build_id) =
        r.runs.map (·.build_id) ++ [r.fresh p] := by
      rw [hruns]
      refine (map_build_id_update (by intro run; rfl)).trans ?_
      simp [start_run, Registry.commit]
    have hdrawn : ∀ id ∈ r.runs.map (·.build_id) ++ [r.fresh p],
        ∃ i < (next p cached_generation r b).uuids, p.gen_random_uuid i = id := by
      intro id hid
      rcases List.mem_append.1 hid with hid | hid
      · obtain ⟨run, hrun, rfl⟩ := List.mem_map.1 hid
        obtain ⟨i, hi, heq⟩ := hids.drawn run hrun
        exact ⟨i, by omega, heq⟩
      · exact ⟨r.uuids, by omega, (List.mem_singleton.1 hid).symm⟩
    refine ⟨?_, fun run hrun => hdrawn _ (hmap ▸ List.mem_map_of_mem hrun)⟩
    simp only [operate]
    rw [hmap, List.nodup_append]
    refine ⟨hids.nodup, by simp, fun id hid id' hid' heq => ?_⟩
    obtain ⟨run, hrun, rfl⟩ := List.mem_map.1 hid
    obtain ⟨i, hi, hdraw⟩ := hids.drawn run hrun
    have hfresh : i = r.uuids := hinj (hdraw.trans (heq.trans (List.mem_singleton.1 hid')))
    omega
  | activate build_id index =>
    cases hactivation : activation r build_id index with
    | none => simpa [operate, hactivation] using hids
    | some result =>
      simp only [operate, hactivation, Option.map_some, Option.getD_some]
      obtain ⟨run, -, -, -, ⟨checked, passed⟩, hchecked, rfl⟩ := activation_cases hactivation
      cases passed with
      | true =>
        obtain ⟨rfl, -⟩ := compose_gates_passed hchecked
        refine hids.update ?_ rfl
        simp only [if_true, set_status, supersede_active]
        exact (map_build_id_update (by intro run; rfl)).trans (map_build_id_update (by intro run; rfl))
      | false =>
        obtain ⟨result, rfl⟩ := compose_gates_failed hchecked
        refine hids.update ?_ rfl
        simp only [Bool.false_eq_true, if_false, set_status, record_failure]
        exact (map_build_id_update (by intro run; rfl)).trans (map_build_id_update (by intro run; rfl))

/-- In every sequence of builds and activations in which the gates fit what is activated, every activation
is sound. -/
theorem activationSound_operations (hinj : Function.Injective p.gen_random_uuid) (operations : List Operation)
    (hfits : Along (operate p) OperationFits Registry.empty operations) :
    Along (operate p) (OperationSound p) Registry.empty operations := by
  refine hfits.imp_of_invariant (I := RunIds p) (fun r operation _ hids _ => runIds_operate hinj hids operation)
    (fun r operation _ hids hok => ?_) ⟨by simp [Registry.empty], by simp [Registry.empty]⟩
  cases operation with
  | build b => trivial
  | activate build_id index => exact activationSound_of_fits hids hok

/-- A page is built and activated, and again when it has changed, by a build of another label. -/
def changed_page_activated : List Operation :=
  [.build (page_build [("d", "A")]),
    .activate 0 (reconcile_index .plain (history .plain cached_generation [page_build [("d", "A")]]) []),
    .build { page_build [("d", "B")] with kb_version := "w" },
    .activate 3 (reconcile_index .plain (history .plain cached_generation
      [page_build [("d", "A")], { page_build [("d", "B")] with kb_version := "w" }])
        (reconcile_index .plain (history .plain cached_generation [page_build [("d", "A")]]) []))]

/-- The second activation supersedes the first. -/
theorem activationSound_changed_page :
    active_runs ((changed_page_activated.take 2).foldl (operate .plain) Registry.empty) = [0] ∧
    active_runs (changed_page_activated.foldl (operate .plain) Registry.empty) = [3] ∧
    Along (operate .plain) (OperationSound .plain) Registry.empty changed_page_activated :=
  ⟨by decide +kernel, by decide +kernel, activationSound_operations (fun _ _ h => h) _ (by decide +kernel)⟩

/-- The extraction of the first build fails; the second build of the same label is complete. Activating
the first one succeeds, as the gates look at the second. -/
theorem failed_extraction_activated_by_label :
    ¬ Along (operate .plain) (OperationSound .plain) Registry.empty
      [.build { page_build [("d", "A")] with extract := fun _ => none },
        .build (page_build [("d", "A")]),
        .activate 0 (reconcile_index .plain
          (history .plain cached_generation
            [{ page_build [("d", "A")] with extract := fun _ => none }, page_build [("d", "A")]]) [])] := by
  decide +kernel

end Operations

end AgenticKb

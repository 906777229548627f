import Mathlib.Data.List.Dedup
import Mathlib.Logic.Relation
import AgenticKb.Lib.Ranking
import AgenticKb.ContextBroker.TaskContextGraph

open AgenticKb.Lib

namespace AgenticKb.ContextBroker

namespace Kept

/-- One turn of the trim loop that does not end it. -/
def Trims (fits : Kept → Bool) (kept next : Kept) : Prop := fits kept = false ∧ kept.drop_tail = some next

/-- Every list is a prefix of what it was. -/
structure PrefixOf (kept before : Kept) : Prop where
  prior : kept.prior <+: before.prior
  conventions : kept.conventions <+: before.conventions
  callees : kept.callees <+: before.callees
  callers : kept.callers <+: before.callers
  tests : kept.tests <+: before.tests

theorem PrefixOf.refl (kept : Kept) : kept.PrefixOf kept :=
  ⟨List.prefix_refl _, List.prefix_refl _, List.prefix_refl _, List.prefix_refl _, List.prefix_refl _⟩

theorem PrefixOf.trans {a b c : Kept} (h : a.PrefixOf b) (h' : b.PrefixOf c) : a.PrefixOf c :=
  ⟨h.prior.trans h'.prior, h.conventions.trans h'.conventions, h.callees.trans h'.callees, h.callers.trans h'.callers,
    h.tests.trans h'.tests⟩

variable {fits : Kept → Bool} {kept next : Kept}

/-- One item is dropped, off the end of its list. -/
theorem drop_tail_some (h : kept.drop_tail = some next) : next.PrefixOf kept ∧ next.size + 1 = kept.size := by
  have hlast : ∀ {α : Type} {xs : List α}, (!xs.isEmpty) = true → xs.dropLast.length + 1 = xs.length := by
    intro α xs hne
    have hpos : 0 < xs.length := List.length_pos_iff.2 (by simpa using hne)
    rw [List.length_dropLast]
    omega
  have hrefl := PrefixOf.refl kept
  unfold drop_tail at h
  split at h
  case isTrue hprior =>
    obtain rfl := Option.some.inj h
    refine ⟨{ hrefl with prior := List.dropLast_prefix _ }, ?_⟩
    have := hlast hprior
    simp only [size]
    omega
  case isFalse =>
  split at h
  case isTrue hconventions =>
    obtain rfl := Option.some.inj h
    refine ⟨{ hrefl with conventions := List.dropLast_prefix _ }, ?_⟩
    have := hlast hconventions
    simp only [size]
    omega
  case isFalse =>
  split at h
  case isTrue hcallees =>
    obtain rfl := Option.some.inj h
    refine ⟨{ hrefl with callees := List.dropLast_prefix _ }, ?_⟩
    have := hlast hcallees
    simp only [size]
    omega
  case isFalse =>
  split at h
  case isTrue hcallers =>
    obtain rfl := Option.some.inj h
    refine ⟨{ hrefl with callers := List.dropLast_prefix _ }, ?_⟩
    have := hlast hcallers
    simp only [size]
    omega
  case isFalse =>
  split at h
  case isTrue htests =>
    obtain rfl := Option.some.inj h
    refine ⟨{ hrefl with tests := List.dropLast_prefix _ }, ?_⟩
    have := hlast htests
    simp only [size]
    omega
  case isFalse => cases h

theorem drop_tail_none (h : kept.drop_tail = none) : kept.size = 0 := by
  unfold drop_tail at h
  split at h
  · cases h
  split at h
  · cases h
  split at h
  · cases h
  split at h
  · cases h
  split at h
  · cases h
  rename_i hprior hconventions hcallees hcallers htests
  simp only [Bool.not_eq_true', List.isEmpty_eq_false_iff, ne_eq, not_not] at hprior hconventions hcallees hcallers htests
  simp [size, hprior, hconventions, hcallees, hcallers, htests]

/-- The loop cannot go on for ever: every turn leaves one item less. -/
theorem wellFounded_trims (fits : Kept → Bool) : WellFounded fun next kept => Trims fits kept next := by
  refine Subrelation.wf (r := fun next kept : Kept => next.size < kept.size) ?_ (InvImage.wf size Nat.lt_wfRel.wf)
  intro next kept h
  have := (drop_tail_some h.2).2
  show next.size < kept.size
  omega

theorem trim_of_fits {steps : Nat} (h : fits kept = true) : trim fits steps kept = kept := by
  cases steps with
  | zero => rfl
  | succ steps => rw [trim, if_pos h]

/-- The loop takes its turns to the end. -/
theorem trim_run {steps : Nat} (hsteps : kept.size ≤ steps) :
    Relation.ReflTransGen (Trims fits) kept (trim fits steps kept) ∧
      (fits (trim fits steps kept) = true ∨ (trim fits steps kept).drop_tail = none) := by
  induction steps generalizing kept with
  | zero =>
    refine ⟨.refl, .inr ?_⟩
    cases hdrop : kept.drop_tail with
    | none => exact hdrop
    | some next =>
      have := (drop_tail_some hdrop).2
      omega
  | succ steps ih =>
    rw [trim]
    by_cases hfits : fits kept = true
    · rw [if_pos hfits]
      exact ⟨.refl, .inl hfits⟩
    rw [if_neg hfits]
    cases hdrop : kept.drop_tail with
    | none => exact ⟨.refl, .inr hdrop⟩
    | some next =>
      have hsize := (drop_tail_some hdrop).2
      have hnext := @ih next
      obtain ⟨hrun, hend⟩ := hnext (by omega)
      exact ⟨.head ⟨by simpa using hfits, hdrop⟩ hrun, hend⟩

theorem drop_tail_of_empty (h : kept.size = 0) : kept.drop_tail = none := by
  cases hdrop : kept.drop_tail with
  | none => rfl
  | some next =>
    have := (drop_tail_some hdrop).2
    omega

/-- The loop goes one way, so it has one end. -/
theorem run_unique {last last' : Kept} (h : Relation.ReflTransGen (Trims fits) kept last)
    (h' : Relation.ReflTransGen (Trims fits) kept last') (hend : fits last = true ∨ last.size = 0)
    (hend' : fits last' = true ∨ last'.size = 0) : last' = last := by
  have hstop : ∀ {last next : Kept}, fits last = true ∨ last.size = 0 → ¬Trims fits last next := by
    rintro last next hend ⟨hover, hdrop⟩
    cases hend with
    | inl hfits =>
      rw [hfits] at hover
      cases hover
    | inr hempty =>
      rw [drop_tail_of_empty hempty] at hdrop
      cases hdrop
  have hnext : Relator.RightUnique (Trims fits) := fun _ _ _ h h' => Option.some.inj (h.2.symm.trans h'.2)
  cases Relation.ReflTransGen.total_of_right_unique hnext h h' with
  | inl hrun =>
    cases hrun.cases_head with
    | inl heq => exact heq.symm
    | inr hstep =>
      obtain ⟨next, hstep, -⟩ := hstep
      exact absurd hstep (hstop hend)
  | inr hrun =>
    cases hrun.cases_head with
    | inl heq => exact heq
    | inr hstep =>
      obtain ⟨next, hstep, -⟩ := hstep
      exact absurd hstep (hstop hend')

theorem prefixOf_of_run (h : Relation.ReflTransGen (Trims fits) kept next) : next.PrefixOf kept := by
  induction h with
  | refl => exact .refl _
  | tail _ hlast ih => exact (drop_tail_some hlast.2).1.trans ih

end Kept

/-- The ids of a response: its scope, candidates, blast radius, conventions and prior changes. -/
def GetTaskContextResponse.cited (response : GetTaskContextResponse) : List Uuid :=
  response.resolved_scope.entities.map (·.entity_id) ++
    response.resolved_scope.ambiguous_candidates.flatMap (·.candidates) ++
    (response.blast_radius.callers ++ response.blast_radius.callees ++ response.blast_radius.tests).map (·.entity_id) ++
    response.conventions.flatMap (·.evidence_ids) ++ response.similar_prior_changes.flatMap (·.evidence_ids)

/-- An entry on the wire is the entry kept, and its reference leads to its path. -/
structure Wired (paths : List String) (entry : BlastEntry) (wire : BlastRadiusEntity) : Prop where
  path : paths[wire.path_ref]? = some entry.path
  same : wire = { wire with
    entity_id := entry.entity_id, symbol := entry.symbol, edge_type := entry.edge_type
    confidence_tier := entry.confidence_tier, caveat := entry.caveat }

/-- A response carries what is kept, its path table and its evidence no more and no less than that. -/
structure CarriesKept (scope : ScopeResolution) (kept : Kept) (response : GetTaskContextResponse) : Prop where
  resolved_scope : response.resolved_scope = { entities := scope.entities, ambiguous_candidates := scope.ambiguous }
  conventions : response.conventions = kept.conventions
  prior : response.similar_prior_changes = kept.prior
  callers : List.Forall₂ (Wired response.referenced_paths) kept.callers response.blast_radius.callers
  callees : List.Forall₂ (Wired response.referenced_paths) kept.callees response.blast_radius.callees
  tests : List.Forall₂ (Wired response.referenced_paths) kept.tests response.blast_radius.tests
  paths : ∀ path, path ∈ response.referenced_paths ↔ ∃ entry ∈ kept.entries, entry.path = path
  paths_once : response.referenced_paths.Nodup
  evidence : ∀ id, id ∈ response.evidence_ids ↔ id ∈ response.cited
  evidence_once : response.evidence_ids.Nodup

section Response

variable {deps : TaskContextDeps} {scope : ScopeResolution} {open_questions : List String} {calls_used tokens : Nat}
  {kept : Kept}

theorem mem_referenced_paths {path : String} : path ∈ referenced_paths kept ↔ ∃ entry ∈ kept.entries, entry.path = path := by
  unfold referenced_paths
  rw [mem_sorted, List.mem_dedup, List.mem_map]

theorem wired_entries {entries : List BlastEntry} (hkept : ∀ entry ∈ entries, entry ∈ kept.entries) :
    List.Forall₂ (Wired (referenced_paths kept)) entries (entries.map (to_wire (referenced_paths kept))) := by
  rw [List.forall₂_map_right_iff, List.forall₂_same]
  intro entry hentry
  have hmem : entry.path ∈ referenced_paths kept := mem_referenced_paths.2 ⟨entry, hkept entry hentry, rfl⟩
  exact ⟨List.getElem?_idxOf hmem, rfl⟩

theorem carriesKept_build_response (deps : TaskContextDeps) (scope : ScopeResolution) (open_questions : List String)
    (calls_used tokens : Nat) (kept : Kept) :
    CarriesKept scope kept (build_response deps scope open_questions calls_used tokens kept) := by
  constructor
  case resolved_scope => rfl
  case conventions => rfl
  case prior => rfl
  case callers => exact wired_entries fun entry h => List.mem_append_left _ (List.mem_append_left _ h)
  case callees => exact wired_entries fun entry h => List.mem_append_left _ (List.mem_append_right _ h)
  case tests => exact wired_entries fun entry h => List.mem_append_right _ h
  case paths => exact fun path => mem_referenced_paths
  case paths_once => exact (sorted_perm _).nodup_iff.2 (List.nodup_dedup _)
  case evidence =>
    intro id
    have hids : (kept.callers.map (to_wire (referenced_paths kept)) ++ kept.callees.map (to_wire (referenced_paths kept)) ++
        kept.tests.map (to_wire (referenced_paths kept))).map (·.entity_id) = kept.entries.map (·.entity_id) := by
      rw [← List.map_append, ← List.map_append, List.map_map]
      rfl
    unfold GetTaskContextResponse.cited build_response collect_evidence
    dsimp only
    rw [hids, mem_sorted, List.mem_dedup]
  case evidence_once => exact (sorted_perm _).nodup_iff.2 (List.nodup_dedup _)

end Response

/-- What trimming leaves: the loop has run to its end, and the response is what is then kept, stamped with the measured
cost. -/
structure TrimmedTo (deps : TaskContextDeps) (request : GetTaskContextRequest) (pass : TaskContextPass) (broadened : Bool)
    (calls_used : Nat) (kept : Kept) (response : GetTaskContextResponse) : Prop where
  ends : WellFounded fun next kept : Kept => kept.Trims (fun kept => decide (estimate_tokens (deps.response_dump_json
    (measured deps request pass broadened calls_used kept)) ≤ response_cap deps request)) next
  run : Relation.ReflTransGen (Kept.Trims fun kept => decide (estimate_tokens (deps.response_dump_json
    (measured deps request pass broadened calls_used kept)) ≤ response_cap deps request)) (assembled request pass) kept
  kept_prefix : kept.PrefixOf (assembled request pass)
  within : estimate_tokens (deps.response_dump_json (measured deps request pass broadened calls_used kept)) ≤
    response_cap deps request ∨ kept.size = 0
  stamped : response = { measured deps request pass broadened calls_used kept with
    budget_used := { tokens := estimate_tokens (deps.response_dump_json (measured deps request pass broadened calls_used kept))
                     calls := calls_used } }
  carries : CarriesKept (floor_scope request.confidence_floor pass.scope) kept response

/-- Every response is trimmed to the cap, as far as there is something to trim. -/
theorem synthesize_trims (deps : TaskContextDeps) (request : GetTaskContextRequest) (pass : TaskContextPass)
    (broadened : Bool) (calls_used : Nat) :
    ∃ kept, TrimmedTo deps request pass broadened calls_used kept (synthesize deps request pass broadened calls_used) := by
  have hrun := @Kept.trim_run (fun kept => decide (estimate_tokens (deps.response_dump_json
    (measured deps request pass broadened calls_used kept)) ≤ response_cap deps request)) _ _
    (Nat.le_refl (assembled request pass).size)
  refine ⟨_, Kept.wellFounded_trims _, hrun.1, Kept.prefixOf_of_run hrun.1, ?_, rfl,
    carriesKept_build_response deps _ _ calls_used _ _⟩
  cases hrun.2 with
  | inl hfits => exact .inl (of_decide_eq_true hfits)
  | inr hnone => exact .inr (Kept.drop_tail_none hnone)

/-- A text that grows by the digits of its counter costs no more than they do on top. -/
theorem estimate_tokens_longer {text text' : String} {digits : Nat} (h : text'.length + 1 = text.length + digits)
    (hdigits : 0 < digits) :
    estimate_tokens text ≤ estimate_tokens text' ∧ estimate_tokens text' ≤ estimate_tokens text + (digits + 2) / 4 := by
  unfold estimate_tokens CHARS_PER_TOKEN
  omega

/-- A dump writes the token counter out in its digits, and has nothing else of it. -/
def WritesCounter (dump : GetTaskContextResponse → String) : Prop :=
  ∀ response tokens, (dump { response with budget_used := { tokens, calls := response.budget_used.calls } }).length +
    (toString response.budget_used.tokens).length = (dump response).length + (toString tokens).length

/-- Where the trim loop ends: the response fits as it is measured, or nothing is left to trim. -/
def EndsAt (deps : TaskContextDeps) (request : GetTaskContextRequest) (pass : TaskContextPass) (broadened : Bool)
    (calls_used : Nat) (kept : Kept) : Prop :=
  Relation.ReflTransGen (Kept.Trims fun kept => decide (estimate_tokens (deps.response_dump_json
      (measured deps request pass broadened calls_used kept)) ≤ response_cap deps request)) (assembled request pass) kept ∧
    (estimate_tokens (deps.response_dump_json (measured deps request pass broadened calls_used kept)) ≤
      response_cap deps request ∨ kept.size = 0)

/-- The last token of a text whose counter is at zero has room for the further digits of the count. -/
def RoomForDigits (text : String) : Prop :=
  text.length + (toString (estimate_tokens text)).length ≤ CHARS_PER_TOKEN * estimate_tokens text + 1

/-- The trimming ends, within the cap or with nothing left to trim, and what the response reports is what it costs. -/
structure ReportsTrueCost (deps : TaskContextDeps) (request : GetTaskContextRequest) (pass : TaskContextPass)
    (broadened : Bool) (calls_used : Nat) (response : GetTaskContextResponse) : Prop where
  trimmed : ∃ kept, TrimmedTo deps request pass broadened calls_used kept response ∧
    (estimate_tokens (deps.response_dump_json response) ≤ response_cap deps request ∨ kept.size = 0)
  cost : response.budget_used.tokens = estimate_tokens (deps.response_dump_json response)

section Cost

variable {deps : TaskContextDeps} {request : GetTaskContextRequest} {pass : TaskContextPass} {broadened : Bool}
  {calls_used : Nat} {kept : Kept} {response : GetTaskContextResponse}

theorem TrimmedTo.endsAt (h : TrimmedTo deps request pass broadened calls_used kept response) :
    EndsAt deps request pass broadened calls_used kept := ⟨h.run, h.within⟩

theorem EndsAt.unique {last last' : Kept} (h : EndsAt deps request pass broadened calls_used last)
    (h' : EndsAt deps request pass broadened calls_used last') : last' = last :=
  Kept.run_unique h.1 h'.1 (h.2.imp_left decide_eq_true) (h'.2.imp_left decide_eq_true)

/-- What the stamp adds to the measured text: the digits of the count in the place of the zero. -/
theorem TrimmedTo.length_stamped (hdump : WritesCounter deps.response_dump_json)
    (h : TrimmedTo deps request pass broadened calls_used kept response) :
    (deps.response_dump_json response).length + 1 =
      (deps.response_dump_json (measured deps request pass broadened calls_used kept)).length +
        (toString response.budget_used.tokens).length := by
  have hlength := hdump (measured deps request pass broadened calls_used kept)
    (estimate_tokens (deps.response_dump_json (measured deps request pass broadened calls_used kept)))
  have hzero : (toString (measured deps request pass broadened calls_used kept).budget_used.tokens).length = 1 := by
    have : (toString 0).length = 1 := rfl
    exact this
  have hcalls : (measured deps request pass broadened calls_used kept).budget_used.calls = calls_used := rfl
  rw [hzero, hcalls] at hlength
  rw [h.stamped]
  exact hlength

theorem TrimmedTo.tokens_eq (h : TrimmedTo deps request pass broadened calls_used kept response) :
    response.budget_used.tokens =
      estimate_tokens (deps.response_dump_json (measured deps request pass broadened calls_used kept)) := by
  rw [h.stamped]

/-- The count is what the stamped text costs, if and only if its digits fit into the last token. -/
theorem TrimmedTo.cost_iff (hdump : WritesCounter deps.response_dump_json)
    (h : TrimmedTo deps request pass broadened calls_used kept response) :
    response.budget_used.tokens = estimate_tokens (deps.response_dump_json response) ↔
      RoomForDigits (deps.response_dump_json (measured deps request pass broadened calls_used kept)) := by
  have hlength := h.length_stamped hdump
  have hpos : 0 < (toString response.budget_used.tokens).length := by
    rw [Nat.toString_eq_repr]
    exact Nat.length_repr_pos
  rw [RoomForDigits, ← h.tokens_eq]
  have htokens := h.tokens_eq
  unfold estimate_tokens CHARS_PER_TOKEN at *
  omega

end Cost

/-- Every response is trimmed to the cap as it is measured, as far as there is something to trim, and what it costs in the
end is what it reports and no more than the digits of that on top; it costs what it reports, within the cap, just where
the last token of the text the loop ends with has room for these digits. -/
theorem synthesize_within_cap (deps : TaskContextDeps) (request : GetTaskContextRequest) (pass : TaskContextPass)
    (broadened : Bool) (calls_used : Nat) (hdump : WritesCounter deps.response_dump_json) :
    ((∃ kept, TrimmedTo deps request pass broadened calls_used kept
        (synthesize deps request pass broadened calls_used)) ∧
      (synthesize deps request pass broadened calls_used).budget_used.tokens ≤
        estimate_tokens (deps.response_dump_json (synthesize deps request pass broadened calls_used)) ∧
      estimate_tokens (deps.response_dump_json (synthesize deps request pass broadened calls_used)) ≤
        (synthesize deps request pass broadened calls_used).budget_used.tokens +
          ((toString (synthesize deps request pass broadened calls_used).budget_used.tokens).length + 2) / 4) ∧
    (ReportsTrueCost deps request pass broadened calls_used (synthesize deps request pass broadened calls_used) ↔
      ∀ kept, EndsAt deps request pass broadened calls_used kept →
        RoomForDigits (deps.response_dump_json (measured deps request pass broadened calls_used kept))) := by
  obtain ⟨kept, h⟩ := synthesize_trims deps request pass broadened calls_used
  have hcost := h.cost_iff hdump
  constructor
  · refine ⟨⟨kept, h⟩, ?_⟩
    have hpos : 0 < (toString (synthesize deps request pass broadened calls_used).budget_used.tokens).length := by
      rw [Nat.toString_eq_repr]
      exact Nat.length_repr_pos
    have hlonger := estimate_tokens_longer (h.length_stamped hdump) hpos
    rwa [← h.tokens_eq] at hlonger
  constructor
  · intro hreports other hend
    rw [h.endsAt.unique hend]
    exact hcost.1 hreports.cost
  · intro hroom
    have hreported := hcost.2 (hroom kept h.endsAt)
    refine ⟨⟨kept, h, ?_⟩, hreported⟩
    rw [← hreported, h.tokens_eq]
    exact h.within

/-- A list of values, dumped already. -/
def dump_list (values : List String) : String := "[" ++ join "," values ++ "]"

def dump_quoted (text : String) : String := "\"" ++ text ++ "\""

/-- A small id as it is written. -/
def small_uuid_text (id : Uuid) : String := "00000000-0000-0000-0000-00000000000" ++ toString id

/-- A model's fields, dumped already, behind the version of its schema. -/
def dump_model (fields : List (String × String)) : String :=
  let field (entry : String × String) := dump_quoted entry.1 ++ ":" ++ entry.2
  "\x7b" ++ join "," ((("schema_version", dump_quoted "1.12.0") :: fields).map field) ++ "\x7d"

def dump_optional (text : Option String) : String := (text.map dump_quoted).getD "null"

def dump_uuids (ids : List Uuid) : String := dump_list (ids.map fun id => dump_quoted (small_uuid_text id))

def ConfidenceTier.dump : ConfidenceTier → String
  | .ground_truth => dump_quoted "ground_truth"
  | .deterministic => dump_quoted "deterministic"
  | .interpreted => dump_quoted "interpreted"

def dump_entity (e : ScopeEntity) : String :=
  let source := match e.resolution_source with
    | .alias_index => "alias_index"
    | .hint => "hint"
    | .search => "search"
  dump_model [("entity_id", dump_quoted (small_uuid_text e.entity_id)), ("path", dump_quoted e.path),
    ("symbol", dump_optional e.symbol), ("resolution_source", dump_quoted source), ("confidence_tier", e.confidence_tier.dump)]

def dump_candidate (c : AmbiguousCandidate) : String :=
  dump_model [("alias_text", dump_quoted c.alias_text), ("candidates", dump_uuids c.candidates),
    ("reason", dump_quoted c.reason)]

def dump_wire (wire : BlastRadiusEntity) : String :=
  dump_model [("entity_id", dump_quoted (small_uuid_text wire.entity_id)), ("path_ref", toString wire.path_ref),
    ("symbol", dump_optional wire.symbol), ("edge_type", dump_quoted wire.edge_type.text),
    ("confidence_tier", wire.confidence_tier.dump), ("caveat", dump_optional wire.caveat)]

/-- The dump of a response with no character to escape. -/
def dump_response (response : GetTaskContextResponse) : String :=
  dump_model
    [("resolved_scope", dump_model
        [("entities", dump_list (response.resolved_scope.entities.map dump_entity)),
          ("ambiguous_candidates", dump_list (response.resolved_scope.ambiguous_candidates.map dump_candidate))]),
      ("referenced_paths", dump_list (response.referenced_paths.map dump_quoted)),
      ("blast_radius", dump_model
        [("callers", dump_list (response.blast_radius.callers.map dump_wire)),
          ("callees", dump_list (response.blast_radius.callees.map dump_wire)),
          ("tests", dump_list (response.blast_radius.tests.map dump_wire))]),
      ("conventions", dump_list (response.conventions.map fun c => dump_model
        [("pattern", dump_quoted c.pattern), ("evidence_ids", dump_uuids c.evidence_ids),
          ("confidence_tier", c.confidence_tier.dump)])),
      ("similar_prior_changes", dump_list (response.similar_prior_changes.map fun c => dump_model
        [("commit_or_pr_id", dump_quoted c.commit_or_pr_id), ("summary", dump_quoted c.summary),
          ("evidence_ids", dump_uuids c.evidence_ids)])),
      ("evidence_ids", dump_uuids response.evidence_ids),
      ("open_questions", dump_list (response.open_questions.map dump_quoted)),
      ("budget_used", dump_model
        [("tokens", toString response.budget_used.tokens), ("calls", toString response.budget_used.calls)])]

def changes_deps : TaskContextDeps :=
  { BrokerDeps.plain with
    json_loads := fun _ => none
    uuid_of_text := fun _ => none
    response_dump_json := dump_response }

/-- A broadened pass that found one prior change and no scope. -/
def changes_pass : TaskContextPass :=
  { scope := {}, blast := {}, conventions := [], calls := 5
    prior_changes := [{ commit_or_pr_id := "c1", summary := "f", evidence_ids := [7], commit_or_pr_id_ne := by decide }] }

def changes_request (max_tokens : Nat) : GetTaskContextRequest := { task_description := "t", max_tokens := some max_tokens }

/-- The response with the change kept. -/
def changes_response (tokens calls : Nat) : GetTaskContextResponse :=
  { resolved_scope := { entities := [], ambiguous_candidates := [] }
    referenced_paths := []
    blast_radius := { callers := [], callees := [], tests := [] }
    conventions := []
    similar_prior_changes := changes_pass.prior_changes
    evidence_ids := [7]
    open_questions := [UNRESOLVED_AFTER_RETRY]
    budget_used := { tokens, calls } }

theorem length_unresolved_after_retry : UNRESOLVED_AFTER_RETRY.length = 197 := by
  apply String.length_ofList.trans
  rfl

theorem length_small_uuid_text {id : Uuid} (h : id < 10) : (small_uuid_text id).length = 36 := by
  have hid : (toString id).length = 1 := by
    rw [Nat.toString_eq_repr, Nat.repr_of_lt h]
    exact String.length_singleton
  have hhead : "00000000-0000-0000-0000-00000000000".length = 35 := by
    apply String.length_ofList.trans
    rfl
  unfold small_uuid_text
  rw [String.length_append, hhead, hid]

theorem length_dump_changes (tokens calls : Nat) :
    (dump_response (changes_response tokens calls)).length = 714 + (toString tokens).length + (toString calls).length := by
  simp only [dump_response, changes_response, changes_pass, List.map_cons, List.map_nil, -String.reduceAppend]
  simp only [dump_model, dump_list, dump_uuids, dump_quoted, List.map_cons, List.map_nil, join, String.intercalate_nil,
    String.intercalate_singleton, String.intercalate_cons_cons, String.length_append,
    length_small_uuid_text (show 7 < 10 by decide), length_unresolved_after_retry, -String.reduceAppend]
  generalize (toString tokens).length = digits
  generalize (toString calls).length = digits'
  simp only [← String.length_toList, String.reduceToList, List.length_cons, List.length_nil]
  omega

theorem estimate_tokens_changes (tokens calls : Nat) :
    estimate_tokens (changes_deps.response_dump_json (changes_response tokens calls)) =
      (714 + (toString tokens).length + (toString calls).length + 3) / 4 := by
  rw [← length_dump_changes]
  rfl

theorem writesCounter_dump_response : WritesCounter dump_response := by
  intro response tokens
  simp only [dump_response, dump_model, List.map_cons, List.map_nil, join, String.intercalate_singleton,
    String.intercalate_cons_cons, String.length_append, -String.reduceAppend]
  omega

section Changes

variable (max_tokens calls : Nat)

theorem measured_changes : measured changes_deps (changes_request max_tokens) changes_pass true calls
    (assembled (changes_request max_tokens) changes_pass) = changes_response 0 calls := by
  have hkept : assembled (changes_request max_tokens) changes_pass =
      { prior := changes_pass.prior_changes, conventions := [], callees := [], callers := [], tests := [] } := rfl
  have hevidence : collect_evidence changes_deps.platform.str_uuid {}
      (assembled (changes_request max_tokens) changes_pass) = [7] := by
    rw [hkept]
    simp [collect_evidence, changes_pass, Kept.entries, sorted]
  have hquestions : open_questions_of (changes_request max_tokens) changes_pass true = [UNRESOLVED_AFTER_RETRY] := rfl
  have hscope : floor_scope (changes_request max_tokens).confidence_floor changes_pass.scope = {} := rfl
  rw [measured, build_response, hscope, hevidence, hquestions, hkept]
  rfl

/-- A cap that the measured response fits ends the loop before its first turn. -/
theorem endsAt_changes (h : (714 + 1 + (toString calls).length + 3) / 4 ≤ response_cap changes_deps (changes_request max_tokens)) :
    EndsAt changes_deps (changes_request max_tokens) changes_pass true calls
      (assembled (changes_request max_tokens) changes_pass) := by
  refine ⟨.refl, .inl ?_⟩
  rw [measured_changes, estimate_tokens_changes]
  exact h

end Changes

/-- With one more digit in the number of calls, the digits of the count find room: the change is kept, and the response
costs what it says. -/
theorem synthesize_within_cap_changes :
    ReportsTrueCost changes_deps (changes_request 180) changes_pass true 10
      (synthesize changes_deps (changes_request 180) changes_pass true 10) := by
  refine (synthesize_within_cap changes_deps (changes_request 180) changes_pass true 10 writesCounter_dump_response).2.2 ?_
  intro kept hend
  have hlength : (changes_deps.response_dump_json (changes_response 0 10)).length = 717 := length_dump_changes 0 10
  have htokens : estimate_tokens (changes_deps.response_dump_json (changes_response 0 10)) = 180 :=
    estimate_tokens_changes 0 10
  rw [(endsAt_changes 180 10 (by decide)).unique hend, measured_changes, RoomForDigits, hlength, htokens]
  decide

/-- The measured payload fills the cap, and the digits of its count go past it: the response costs a token more than it
says, and than it was to cost, with a change left to drop. -/
theorem stamp_exceeds_cap :
    (synthesize changes_deps (changes_request 179) changes_pass true 9).budget_used.tokens = 179 ∧
      estimate_tokens (changes_deps.response_dump_json (synthesize changes_deps (changes_request 179) changes_pass true 9)) =
        180 ∧
      response_cap changes_deps (changes_request 179) = 179 ∧
      (synthesize changes_deps (changes_request 179) changes_pass true 9).similar_prior_changes ≠ [] ∧
      ¬ReportsTrueCost changes_deps (changes_request 179) changes_pass true 9
        (synthesize changes_deps (changes_request 179) changes_pass true 9) := by
  obtain ⟨kept, h⟩ := synthesize_trims changes_deps (changes_request 179) changes_pass true 9
  have hkept := (endsAt_changes 179 9 (by decide)).unique h.endsAt
  have hresponse : synthesize changes_deps (changes_request 179) changes_pass true 9 = changes_response 179 9 := by
    have htokens : estimate_tokens (changes_deps.response_dump_json (changes_response 0 9)) = 179 :=
      (estimate_tokens_changes 0 9).trans (by decide)
    rw [h.stamped, hkept, measured_changes, htokens]
    rfl
  have hcost : estimate_tokens (changes_deps.response_dump_json (changes_response 179 9)) = 180 :=
    (estimate_tokens_changes 179 9).trans (by decide)
  rw [hresponse]
  refine ⟨rfl, hcost, rfl, by simp [changes_response, changes_pass], fun hreports => ?_⟩
  have hsame := hreports.cost
  rw [hcost] at hsame
  exact absurd hsame (by decide)

end AgenticKb.ContextBroker

import AgenticKb.ContextBroker.State
import AgenticKb.Lib.Run

open AgenticKb.Lib

namespace AgenticKb.ContextBroker

section Evict

variable {run_of : Ref → Option String} {max_packs : Nat}

/-- Some of `packs` is of the run. -/
def serves (run_of : Ref → Option String) (run : Option String) (packs : Dict String Ref) : Bool :=
  packs.any fun entry => run_of entry.2 == run

private theorem get?_evict_run_usage {packs run_usage : Dict String Ref} {run_id run : String} :
    (evict_run_usage_if_unreferenced run_of packs run_usage run_id).get? run =
      if run = run_id && !serves run_of (some run_id) packs then none else run_usage.get? run := by
  unfold evict_run_usage_if_unreferenced serves
  by_cases hany : packs.any fun entry => run_of entry.2 == some run_id
  · simp [hany]
  · simp [hany, Dict.get?_del]

/-- What the eviction loop leaves: the packs that fit beside a new one, and the meter of every run but those
whose packs all went. -/
theorem evict_spec (packs run_usage : Dict String Ref) :
    (evict run_of max_packs packs run_usage).1 = packs.drop (packs.length + 1 - max_packs) ∧
      (evict run_of max_packs packs run_usage).2.2 = decide (0 < max_packs) ∧
      ∀ run, (evict run_of max_packs packs run_usage).2.1.get? run =
        if serves run_of (some run) (packs.take (packs.length + 1 - max_packs)) &&
            !serves run_of (some run) (packs.drop (packs.length + 1 - max_packs)) then none
        else run_usage.get? run := by
  induction packs generalizing run_usage with
  | nil => simp [evict, serves]
  | cons entry packs ih =>
    unfold evict
    by_cases hfull : max_packs ≤ packs.length + 1
    · have hk : (entry :: packs).length + 1 - max_packs = (packs.length + 1 - max_packs) + 1 := by
        rw [List.length_cons]
        omega
      rw [if_pos hfull, hk, List.drop_succ_cons, List.take_succ_cons]
      refine ⟨(ih _).1, (ih _).2.1, fun run => ?_⟩
      rw [(ih _).2.2 run]
      generalize packs.length + 1 - max_packs = k
      have hsplit : serves run_of (some run) packs =
          (serves run_of (some run) (packs.take k) || serves run_of (some run) (packs.drop k)) := by
        rw [serves, serves, serves, ← List.any_append, List.take_append_drop]
      have hcons : serves run_of (some run) (entry :: packs.take k) =
          (run_of entry.2 == some run || serves run_of (some run) (packs.take k)) := rfl
      rw [hcons]
      cases hrun : run_of entry.2 with
      | none => simp
      | some run_id =>
        rw [get?_evict_run_usage]
        by_cases heq : run = run_id
        · subst heq
          rw [hsplit]
          by_cases hdrop : serves run_of (some run) (packs.drop k)
          · simp [hdrop]
          · by_cases htake : serves run_of (some run) (packs.take k)
            · simp [hdrop, htake]
            · simp [hdrop, htake]
        · have hne : ¬ run_id = run := fun h => heq h.symm
          simp [heq, hne]
    · have hk : (entry :: packs).length + 1 - max_packs = 0 := by
        rw [List.length_cons]
        omega
      have hroom : 0 < max_packs := by omega
      rw [if_neg hfull, hk]
      simp [serves, hroom]

end Evict

/-- The packs a tool call may still read or store: those in the store, and those being created. -/
def Broker.Held (s : Broker) (pack : Ref) : Prop :=
  pack ∈ s.store.packs.map (·.2) ∨ pack ∈ s.in_flight

/-- The metering of the runs holds together. -/
structure Metered (s : Broker) : Prop where
  /-- The meter a pack was built with is the one registered for its run. -/
  registered : ∀ pack state, s.pack_states[pack]? = some state → s.Held pack →
    s.store.run_usage.get? state.run_id = some state.agent_usage
  /-- What is charged through one pack of a run is seen by every other. -/
  shared : ∀ pack state other other_state, s.pack_states[pack]? = some state → s.Held pack →
    s.pack_states[other]? = some other_state → s.Held other → state.run_id = other_state.run_id →
    ∀ subject requests tokens, (s.charge pack subject requests tokens).usage_for other_state subject =
      (s.usage_for other_state subject).add requests tokens
  /-- The next pack of the run goes on with what the run has spent. -/
  continued : ∀ pack state, s.pack_states[pack]? = some state → s.Held pack →
    ∀ subject, ∀ next, next.agent_usage = (s.usage_for_run state.run_id).2 →
      (s.usage_for_run state.run_id).1.usage_for next subject = s.usage_for state subject

/-- Every reference stands for an object, and a store without room holds nothing. -/
structure Sound (s : Broker) : Prop where
  meter : ∀ state ∈ s.pack_states, s.usages.length > state.agent_usage
  registered : ∀ run usage, s.store.run_usage.get? run = some usage → s.usages.length > usage
  held : ∀ pack, s.Held pack → s.pack_states.length > pack
  room : s.store.max_packs = 0 → s.store.packs = []

def Registered (s : Broker) : Prop :=
  ∀ pack state, s.pack_states[pack]? = some state → s.Held pack →
    s.store.run_usage.get? state.run_id = some state.agent_usage

section Step

variable {s : Broker}

theorem usage_for_run_of_registered {run : String} {usage : Ref}
    (h : s.store.run_usage.get? run = some usage) : s.usage_for_run run = (s, usage) := by
  simp only [Broker.usage_for_run, h]

/-- Packs with one meter read one account. -/
theorem usage_for_charge {pack : Ref} {state other : EvidencePackState}
    (hstate : s.pack_states[pack]? = some state) (hmeter : state.agent_usage = other.agent_usage)
    (hlt : state.agent_usage < s.usages.length) (subject : String) (requests tokens : Nat) :
    (s.charge pack subject requests tokens).usage_for other subject =
      (s.usage_for other subject).add requests tokens := by
  obtain ⟨usage, husage⟩ : ∃ usage, s.usages[state.agent_usage]? = some usage :=
    ⟨_, List.getElem?_eq_getElem hlt⟩
  simp [Broker.charge, hstate, Broker.usage_for, ← hmeter, husage, Dict.get?_set]

theorem metered_iff (hsound : Sound s) : Metered s ↔ Registered s := by
  constructor
  · exact fun h => h.registered
  · intro h
    refine ⟨h, ?_, ?_⟩
    · intro pack state other other_state hstate hheld hother hheld' hrun subject requests tokens
      have hmeter : state.agent_usage = other_state.agent_usage := by
        have hreg := h pack state hstate hheld
        rw [hrun, h other other_state hother hheld', Option.some.injEq] at hreg
        exact hreg.symm
      exact usage_for_charge hstate hmeter (hsound.meter state (List.mem_of_getElem? hstate)) ..
    · intro pack state hstate hheld subject next hnext
      have hsame := usage_for_run_of_registered (h pack state hstate hheld)
      rw [hsame] at hnext ⊢
      simp only [Broker.usage_for, hnext]

/-- The packs that leave the store when one more is stored. -/
def Broker.evicted (s : Broker) : Dict String Ref :=
  s.store.packs.take (s.store.packs.length + 1 - s.store.max_packs)

/-- The packs that stay. -/
def Broker.kept (s : Broker) : Dict String Ref :=
  s.store.packs.drop (s.store.packs.length + 1 - s.store.max_packs)

/-- A pack is stored only while no run with a pack in the making loses its last stored pack. -/
def MetersKept (s : Broker) : Operation → Prop
  | .end_create pack => pack ∈ s.in_flight → ∀ extending ∈ s.in_flight,
      serves s.run_of (s.run_of extending) s.evicted = true →
        serves s.run_of (s.run_of extending) s.kept = true
  | _ => True

instance (s : Broker) (operation : Operation) : Decidable (MetersKept s operation) := by
  cases operation <;> unfold MetersKept <;> infer_instance

/-- The run's meter is registered, and every meter that was stays. -/
theorem usage_for_run_spec (hsound : Sound s) (run : String) :
    (∃ run_usage usages, (s.usage_for_run run).1 =
        { s with store := { s.store with run_usage }, usages := s.usages ++ usages } ∧
      (∀ run' usage, s.store.run_usage.get? run' = some usage → run_usage.get? run' = some usage) ∧
      ∀ run' usage, run_usage.get? run' = some usage → (s.usages ++ usages).length > usage) ∧
      (s.usage_for_run run).1.store.run_usage.get? run = some (s.usage_for_run run).2 := by
  unfold Broker.usage_for_run
  cases hget : s.store.run_usage.get? run with
  | some usage =>
    refine ⟨⟨s.store.run_usage, [], by simp, fun _ _ h => h, fun run' usage h => ?_⟩, hget⟩
    rw [List.append_nil]
    exact hsound.registered run' usage h
  | none =>
    refine ⟨⟨s.store.run_usage.set run s.usages.length, [[]], rfl, ?_, ?_⟩, by simp [Dict.get?_set]⟩
    · intro run' usage h
      have hne : run' ≠ run := by
        intro heq
        rw [heq, hget] at h
        simp at h
      rw [Dict.get?_set, if_neg hne, h]
    · intro run' usage h
      rw [Dict.get?_set] at h
      rw [List.length_append, List.length_singleton]
      split at h
      · rw [← Option.some.inj h]
        exact Nat.lt_succ_self _
      · have hlt := hsound.registered run' usage h
        omega

theorem sound_begin_create (h : Sound s) (context_pack_id run_id : String) (budget_tokens used_tokens : Nat) :
    Sound (s.begin_create context_pack_id run_id budget_tokens used_tokens) := by
  obtain ⟨⟨run_usage, usages, heq, -, hlt⟩, hrun⟩ := usage_for_run_spec h run_id
  unfold Broker.begin_create
  generalize s.usage_for_run run_id = result at heq hrun
  obtain ⟨s', usage⟩ := result
  dsimp only at heq hrun
  subst heq
  refine ⟨?_, hlt, ?_, h.room⟩
  · intro state hstate
    dsimp only at hstate ⊢
    rcases List.mem_append.1 hstate with hold | hnew
    · have hmeter := h.meter state hold
      rw [List.length_append]
      omega
    · rw [List.mem_singleton.1 hnew]
      exact hlt run_id usage hrun
  · intro pack hheld
    dsimp only
    rw [List.length_append, List.length_singleton]
    cases hheld with
    | inl hlive =>
      have hold := h.held pack (.inl hlive)
      omega
    | inr hflight =>
      rcases List.mem_append.1 hflight with hold | hnew
      · have hlt := h.held pack (.inr hold)
        omega
      · rw [List.mem_singleton.1 hnew]
        exact Nat.lt_succ_self _

theorem registered_begin_create (h : Sound s) (hreg : Registered s) (context_pack_id run_id : String)
    (budget_tokens used_tokens : Nat) :
    Registered (s.begin_create context_pack_id run_id budget_tokens used_tokens) := by
  obtain ⟨⟨run_usage, usages, heq, hkeep, -⟩, hrun⟩ := usage_for_run_spec h run_id
  unfold Broker.begin_create
  generalize s.usage_for_run run_id = result at heq hrun
  obtain ⟨s', usage⟩ := result
  dsimp only at heq hrun
  subst heq
  intro pack state hstate hheld
  dsimp only at hstate ⊢
  by_cases hlt : s.pack_states.length > pack
  · rw [List.getElem?_append_left hlt] at hstate
    refine hkeep _ _ (hreg pack state hstate ?_)
    cases hheld with
    | inl hlive => exact .inl hlive
    | inr hflight =>
      refine .inr ((List.mem_append.1 hflight).resolve_right fun hnew => ?_)
      rw [List.mem_singleton.1 hnew] at hlt
      exact lt_irrefl _ hlt
  · rw [List.getElem?_append_right (by omega)] at hstate
    have hnew := List.mem_of_getElem? hstate
    rw [List.mem_singleton.1 hnew]
    exact hrun

theorem held_of_mem_kept {entry : String × Ref} (h : entry ∈ s.kept) : s.Held entry.2 :=
  .inl (List.mem_map_of_mem (List.mem_of_mem_drop h))

/-- What `create` does to the store. -/
theorem create_spec (s : Broker) (pack : Ref) (id : String) :
    ∃ packs run_usage, s.create pack id = { s with store := { s.store with packs, run_usage } } ∧
      packs = (if 0 < s.store.max_packs then Dict.set s.kept id pack else s.kept) ∧
      ∀ run, run_usage.get? run =
        if serves s.run_of (some run) s.evicted && !serves s.run_of (some run) s.kept then none
        else s.store.run_usage.get? run := by
  obtain ⟨hpacks, hroom, husage⟩ :=
    evict_spec s.store.packs s.store.run_usage
  unfold Broker.create
  refine ⟨_, _, rfl, ?_, husage⟩
  rw [hpacks, hroom]
  simp [Broker.kept]

/-- The packs held after one was stored were held before, and those that are stored stayed. -/
theorem held_end_create {pack held : Ref} {id : String} (hin : pack ∈ s.in_flight)
    (h : ({ s.create pack id with in_flight := s.in_flight.erase pack } : Broker).Held held) :
    held ∈ s.kept.map (·.2) ∨ held ∈ s.in_flight := by
  obtain ⟨packs, run_usage, heq, hpacks, -⟩ := create_spec s pack id
  rw [heq] at h
  cases h with
  | inr hflight => exact .inr (List.mem_of_mem_erase hflight)
  | inl hlive =>
    obtain ⟨entry, hentry, rfl⟩ := List.mem_map.1 hlive
    dsimp only at hentry
    rw [hpacks] at hentry
    split at hentry
    · cases Dict.mem_set hentry with
      | inl hkept => exact .inl (List.mem_map_of_mem hkept)
      | inr hnew => exact .inr (by rw [hnew]; exact hin)
    · exact .inl (List.mem_map_of_mem hentry)

theorem sound_end_create (h : Sound s) {pack : Ref} {id : String} (hin : pack ∈ s.in_flight) :
    Sound ({ s.create pack id with in_flight := s.in_flight.erase pack } : Broker) := by
  have hheld : ∀ held, ({ s.create pack id with in_flight := s.in_flight.erase pack } : Broker).Held held →
      held ∈ s.kept.map (·.2) ∨ held ∈ s.in_flight := fun _ => held_end_create hin
  obtain ⟨packs, run_usage, heq, hpacks, husage⟩ := create_spec s pack id
  rw [heq] at hheld ⊢
  refine ⟨h.meter, fun run usage hget => ?_, fun held hh => ?_, fun hroom => ?_⟩
  · rw [husage run] at hget
    split at hget
    · simp at hget
    · exact h.registered run usage hget
  · cases hheld held hh with
    | inl hkept =>
      obtain ⟨entry, hentry, rfl⟩ := List.mem_map.1 hkept
      exact h.held _ (held_of_mem_kept hentry)
    | inr hflight => exact h.held held (.inr hflight)
  · have hzero : s.store.max_packs = 0 := hroom
    dsimp only
    rw [hpacks, if_neg (by omega), Broker.kept, h.room hzero, List.drop_nil]

theorem registered_end_create (hreg : Registered s) {pack : Ref} {id : String} (hin : pack ∈ s.in_flight)
    (hkept : MetersKept s (.end_create pack)) :
    Registered ({ s.create pack id with in_flight := s.in_flight.erase pack } : Broker) := by
  have hheld : ∀ held, ({ s.create pack id with in_flight := s.in_flight.erase pack } : Broker).Held held →
      held ∈ s.kept.map (·.2) ∨ held ∈ s.in_flight := fun _ => held_end_create hin
  obtain ⟨packs, run_usage, heq, -, husage⟩ := create_spec s pack id
  rw [heq] at hheld ⊢
  intro held state hstate hh
  dsimp only at hstate ⊢
  have hrun : s.run_of held = some state.run_id := by rw [Broker.run_of, hstate, Option.map_some]
  rw [husage]
  cases hheld held hh with
  | inl hstored =>
    obtain ⟨entry, hentry, rfl⟩ := List.mem_map.1 hstored
    have hserved : serves s.run_of (some state.run_id) s.kept = true :=
      List.any_eq_true.2 ⟨entry, hentry, by rw [hrun, beq_self_eq_true]⟩
    rw [hserved, Bool.not_true, Bool.and_false, if_neg (by simp)]
    exact hreg _ state hstate (held_of_mem_kept hentry)
  | inr hflight =>
    have himp := hkept hin held hflight
    rw [hrun] at himp
    by_cases hgone : serves s.run_of (some state.run_id) s.evicted = true
    · rw [himp hgone, Bool.not_true, Bool.and_false, if_neg (by simp)]
      exact hreg held state hstate (.inr hflight)
    · rw [Bool.not_eq_true] at hgone
      rw [hgone, Bool.false_and, if_neg (by simp)]
      exact hreg held state hstate (.inr hflight)

/-- A run that loses its last stored pack while another of its packs is in the making loses its meter. -/
theorem not_registered_end_create (h : Sound s) {pack : Ref} {id : String} (hin : pack ∈ s.in_flight)
    (hlost : ¬ MetersKept s (.end_create pack)) :
    ¬ Registered ({ s.create pack id with in_flight := s.in_flight.erase pack } : Broker) := by
  intro hreg
  simp only [MetersKept, hin, forall_const, not_forall] at hlost
  obtain ⟨extending, hflight, hgone, hnone⟩ := hlost
  obtain ⟨held, hheld⟩ : ∃ held, s.pack_states[extending]? = some held :=
    ⟨_, List.getElem?_eq_getElem (h.held extending (.inr hflight))⟩
  have hrun : s.run_of extending = some held.run_id := by rw [Broker.run_of, hheld, Option.map_some]
  rw [hrun] at hgone hnone
  obtain ⟨packs, run_usage, heq, hpacks, husage⟩ := create_spec s pack id
  rw [heq] at hreg
  have hmeter := husage held.run_id
  rw [hgone, Bool.true_and, if_pos (by simpa using hnone)] at hmeter
  have hroom : 0 < s.store.max_packs := by
    by_contra hzero
    rw [serves, Broker.evicted, h.room (by omega)] at hgone
    simp at hgone
  -- the pack is in the store, and any other one is still in the making
  have hstill : ({ s with
      store := { s.store with packs, run_usage }, in_flight := s.in_flight.erase pack } : Broker).Held
      extending := by
    by_cases hsame : extending = pack
    · refine .inl (List.mem_map.2 ⟨(id, pack), ?_, hsame.symm⟩)
      rw [hpacks, if_pos hroom]
      apply Dict.mem_of_get?
      rw [Dict.get?_set, if_pos rfl]
    · exact .inr ((List.mem_erase_of_ne hsame).2 hflight)
  have hget := hreg extending held hheld hstill
  dsimp only at hget
  rw [hmeter] at hget
  simp at hget

theorem held_get {id : String} {held : Ref} (h : (s.get id).1.Held held) : s.Held held := by
  unfold Broker.get at h
  cases hget : s.store.packs.get? id with
  | none =>
    rw [hget] at h
    exact h
  | some pack =>
    rw [hget] at h
    refine h.imp_left fun hlive => ?_
    obtain ⟨entry, hentry, rfl⟩ := List.mem_map.1 hlive
    cases List.mem_append.1 hentry with
    | inl hold => exact List.mem_map_of_mem (List.mem_of_mem_filter hold)
    | inr hmoved =>
      rw [List.mem_singleton.1 hmoved]
      exact List.mem_map_of_mem (Dict.mem_of_get? hget)

theorem get_frame (s : Broker) (id : String) :
    (s.get id).1.pack_states = s.pack_states ∧ (s.get id).1.usages = s.usages ∧
      (s.get id).1.store.run_usage = s.store.run_usage ∧
      (s.store.max_packs = 0 → s.store.packs = [] → (s.get id).1.store.packs = []) ∧
      (s.get id).1.store.max_packs = s.store.max_packs := by
  unfold Broker.get
  cases hget : s.store.packs.get? id with
  | none => exact ⟨rfl, rfl, rfl, fun _ h => h, rfl⟩
  | some pack =>
    refine ⟨rfl, rfl, rfl, fun _ hnil => ?_, rfl⟩
    have hmem := Dict.mem_of_get? hget
    rw [hnil] at hmem
    simp at hmem

theorem sound_get (h : Sound s) (id : String) : Sound (s.get id).1 := by
  obtain ⟨hstates, husages, hmeters, hroom, hmax⟩ := get_frame s id
  constructor
  · rw [hstates, husages]
    exact h.meter
  · rw [hmeters, husages]
    exact h.registered
  · intro held hheld
    rw [hstates]
    exact h.held held (held_get hheld)
  · intro hzero
    rw [hmax] at hzero
    exact hroom hzero (h.room hzero)

theorem registered_get (hreg : Registered s) (id : String) : Registered (s.get id).1 := by
  obtain ⟨hstates, -, hmeters, -⟩ := get_frame s id
  intro held state hstate hheld
  rw [hstates] at hstate
  rw [hmeters]
  exact hreg held state hstate (held_get hheld)

/-- A charge leaves every pack with the run and the meter it had. -/
theorem state_of_charge {pack held : Ref} {subject : String} {requests tokens : Nat} {state' : EvidencePackState}
    (h : (s.charge pack subject requests tokens).pack_states[held]? = some state') :
    ∃ state, s.pack_states[held]? = some state ∧ state'.run_id = state.run_id ∧
      state'.agent_usage = state.agent_usage := by
  unfold Broker.charge at h
  cases hpack : s.pack_states[pack]? with
  | none =>
    rw [hpack] at h
    exact ⟨state', h, rfl, rfl⟩
  | some state =>
    rw [hpack] at h
    dsimp only at h
    rw [List.getElem?_set] at h
    by_cases hsame : pack = held
    · subst hsame
      rw [if_pos rfl] at h
      split at h
      · exact ⟨state, hpack, by rw [← Option.some.inj h], by rw [← Option.some.inj h]⟩
      · simp at h
    · rw [if_neg hsame] at h
      exact ⟨state', h, rfl, rfl⟩

theorem charge_frame (s : Broker) (pack : Ref) (subject : String) (requests tokens : Nat) :
    (s.charge pack subject requests tokens).store = s.store ∧
      (s.charge pack subject requests tokens).in_flight = s.in_flight ∧
      (s.charge pack subject requests tokens).usages.length = s.usages.length ∧
      (s.charge pack subject requests tokens).pack_states.length = s.pack_states.length := by
  unfold Broker.charge
  cases s.pack_states[pack]? with
  | none => exact ⟨rfl, rfl, rfl, rfl⟩
  | some state => exact ⟨rfl, rfl, List.length_modify .., List.length_set ..⟩

theorem sound_charge (h : Sound s) (pack : Ref) (subject : String) (requests tokens : Nat) :
    Sound (s.charge pack subject requests tokens) := by
  obtain ⟨hstore, hflight, husages, hstates⟩ := charge_frame s pack subject requests tokens
  constructor
  · intro state' hmem
    obtain ⟨held, hstate'⟩ := List.mem_iff_getElem?.1 hmem
    obtain ⟨state, hstate, -, hmeter⟩ := state_of_charge hstate'
    rw [husages, hmeter]
    exact h.meter state (List.mem_of_getElem? hstate)
  · rw [hstore, husages]
    exact h.registered
  · unfold Broker.Held
    rw [hstore, hflight, hstates]
    exact h.held
  · rw [hstore]
    exact h.room

theorem registered_charge (hreg : Registered s) (pack : Ref) (subject : String) (requests tokens : Nat) :
    Registered (s.charge pack subject requests tokens) := by
  obtain ⟨hstore, hflight, -⟩ := charge_frame s pack subject requests tokens
  intro held state' hstate' hheld
  obtain ⟨state, hstate, hrun, hmeter⟩ := state_of_charge hstate'
  unfold Broker.Held at hheld
  rw [hstore, hflight] at hheld
  rw [hstore, hrun, hmeter]
  exact hreg held state hstate hheld

theorem held_fail_create {pack held : Ref} (h : (s.fail_create pack).Held held) : s.Held held :=
  h.imp_right List.mem_of_mem_erase

/-- Every operation keeps the references sound. -/
theorem sound_step (h : Sound s) (operation : Operation) : Sound (s.step operation) := by
  cases operation with
  | begin_create id run_id budget_tokens used_tokens => exact sound_begin_create h ..
  | end_create pack =>
    simp only [Broker.step, Broker.end_create]
    split
    · split
      · rename_i hin
        exact sound_end_create h (List.contains_iff_mem.1 hin)
      · exact h
    · exact h
  | fail_create pack => exact ⟨h.meter, h.registered, fun held hh => h.held held (held_fail_create hh), h.room⟩
  | get id => exact sound_get h id
  | charge pack subject requests tokens => exact sound_charge h ..

/-- An operation keeps the meters registered exactly if it keeps those of the runs that are extended. -/
theorem registered_step_iff (h : Sound s) (hreg : Registered s) (operation : Operation) :
    Registered (s.step operation) ↔ MetersKept s operation := by
  cases operation with
  | begin_create id run_id budget_tokens used_tokens =>
    exact ⟨fun _ => trivial, fun _ => registered_begin_create h hreg id run_id budget_tokens used_tokens⟩
  | end_create pack =>
    simp only [Broker.step, Broker.end_create]
    by_cases hin : pack ∈ s.in_flight
    · obtain ⟨state, hstate⟩ : ∃ state, s.pack_states[pack]? = some state :=
        ⟨_, List.getElem?_eq_getElem (h.held pack (.inr hin))⟩
      simp only [hstate, List.contains_iff_mem, hin, if_true]
      constructor
      · intro hnext
        by_contra hlost
        exact not_registered_end_create h hin hlost hnext
      · exact registered_end_create hreg hin
    · constructor
      · exact fun _ hmem => absurd hmem hin
      · intro _
        split
        · rw [if_neg (by simpa using hin)]
          exact hreg
        · exact hreg
  | fail_create pack =>
    exact ⟨fun _ => trivial, fun _ held state hstate hh => hreg held state hstate (held_fail_create hh)⟩
  | get id => exact ⟨fun _ => trivial, fun _ => registered_get hreg id⟩
  | charge pack subject requests tokens => exact ⟨fun _ => trivial, fun _ => registered_charge hreg pack subject requests tokens⟩

end Step

theorem sound_start (max_packs : Nat) : Sound (.start max_packs) :=
  ⟨by simp [Broker.start], by simp [Broker.start, Dict.get?], by simp [Broker.start, Broker.Held], fun _ => rfl⟩

/-- The metering holds after every operation of a run exactly if no operation lets a run that is being
extended lose its last stored pack. -/
theorem metered_iff_metersKept (max_packs : Nat) (operations : List Operation) :
    Along Broker.step (fun s operation => Metered (s.step operation)) (.start max_packs) operations ↔
      Along Broker.step MetersKept (.start max_packs) operations := by
  have hinit : Sound (.start max_packs) ∧ Registered (.start max_packs) :=
    ⟨sound_start max_packs, fun pack state hstate => by simp [Broker.start] at hstate⟩
  constructor
  · apply Along.imp_of_invariant (I := fun s => Sound s ∧ Registered s)
    · rintro s operation - ⟨hsound, -⟩ hmetered
      exact ⟨sound_step hsound operation, hmetered.registered⟩
    · rintro s operation - ⟨hsound, hreg⟩ hmetered
      exact (registered_step_iff hsound hreg operation).1 hmetered.registered
    · exact hinit
  · apply Along.imp_of_invariant (I := fun s => Sound s ∧ Registered s)
    · rintro s operation - ⟨hsound, hreg⟩ hkept
      exact ⟨sound_step hsound operation, (registered_step_iff hsound hreg operation).2 hkept⟩
    · rintro s operation - ⟨hsound, hreg⟩ hkept
      exact (metered_iff (sound_step hsound operation)).2 ((registered_step_iff hsound hreg operation).2 hkept)
    · exact hinit

/-- A store of two packs: the run's only pack is the least recently used when a second one of the run is
stored, so the run's meter goes, and its third pack starts from zero. -/
theorem meter_reset_by_next_pack :
    ¬ Along Broker.step (fun s operation => Metered (s.step operation)) (.start 2)
      [.begin_create "a" "run-1" 100 0, .end_create 0, .charge 0 "agent" 1 40, .begin_create "x" "run-2" 100 0,
        .end_create 1, .begin_create "b" "run-1" 100 0, .end_create 2] := by
  rintro ⟨-, -, -, -, -, -, hlast, -⟩
  have hmeter := Metered.registered hlast 2 ⟨"b", "run-1", 100, 0, 0⟩ rfl (.inl (by decide))
  exact absurd hmeter (by decide)

end AgenticKb.ContextBroker

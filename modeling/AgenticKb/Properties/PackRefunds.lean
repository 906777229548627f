import AgenticKb.Properties.Accounts
import AgenticKb.Properties.PackBudget

open AgenticKb.Lib

namespace AgenticKb.ContextBroker

/-- A failing call finds its agent's meter as it left it, and a cancelled call has charged nothing. -/
def Event.refunds_exactly (s : Server) : Event → Bool
  | .fail i _ => (s.calls[i]?).all fun call => (call.refund_levels s).all fun levels => levels.1 == levels.2
  | .cancel i _ => (s.calls[i]?).all fun call => call.pending.all fun charge =>
      charge.requests == 0 && charge.tokens == 0
  | _ => true

/-- The meters count exactly the charges that stand. -/
structure Accounted (s : Server) : Prop where
  run_tokens : ∀ (ref : Ref) (pack : PackState) (made : Nat), s.packs[ref]? = some pack → s.made_with[ref]? = some made →
    pack.used_run_tokens = made + s.standing (on_pack ref)
  agents : ∀ (usage : Ref) (subject : String), s.reading usage subject = s.charged (metered_by usage) subject
  /-- A call that has charged still finds its pack as it left it: it holds the lock. -/
  levels : ∀ call ∈ s.calls, ∀ charge ∈ call.pending, ∀ snapshot ∈ call.refund, ∀ pack : PackState,
    s.packs[charge.pack]? = some pack → pack.used_run_tokens = snapshot.used_run_tokens + charge.tokens
  /-- Nothing was ever forfeited. -/
  forfeits : ∀ forfeit ∈ s.forfeits, forfeit.2.requests = 0 ∧ forfeit.2.tokens = 0

theorem accounted_start (db : Database) : Accounted (.start db) := by
  refine ⟨by simp [Server.start], ?_, by simp [Server.start], by simp [Server.start]⟩
  exact fun usage subject => rfl

section Step

variable {deps : ServerDeps} {s s' : Server} {event : Event}

/-- The levels of the calls that have charged, if one pack changes under a lock that one call holds. -/
private theorem levels_of_set (hcon : Consistent s) (h : Accounted s) {i : Nat} {call : Call} {stage : Stage} {ref : Ref}
    {pack' : PackState} (hcall : s.calls[i]? = some call)
    (halone : ∀ (j : Nat) (other : Call), s.calls[j]? = some other → j ≠ i → other.stage.holds ≠ some ref)
    (hnew : ∀ charge ∈ ({ call with stage } : Call).pending, ∀ snapshot ∈ ({ call with stage } : Call).refund,
      ∀ pack : PackState, s'.packs[charge.pack]? = some pack →
        pack.used_run_tokens = snapshot.used_run_tokens + charge.tokens)
    (hpacks : s'.packs = s.packs.set ref pack')
    (hcalls : s'.calls = s.calls.modify i fun call => { call with stage }) :
    ∀ call ∈ s'.calls, ∀ charge ∈ call.pending, ∀ snapshot ∈ call.refund, ∀ pack : PackState,
      s'.packs[charge.pack]? = some pack → pack.used_run_tokens = snapshot.used_run_tokens + charge.tokens := by
  rw [hcalls]
  refine forall_mem_modify ?_ h.levels hcall hnew
  intro j other hne hother hlevels charge hcharge snapshot hsnapshot pack hpack
  have hholds := (hcon.backed other (List.mem_of_getElem? hother) charge hcharge).2.1
  have hne' : ref ≠ charge.pack := fun heq => halone j other hother hne (heq ▸ hholds)
  rw [hpacks, List.getElem?_set_ne hne'] at hpack
  exact hlevels charge hcharge snapshot hsnapshot pack hpack

/-- The levels of the packs, if one of them changes and nothing new stands on the others. -/
private theorem run_tokens_of_set (h : Accounted s) {ref : Ref} {pack pack' : PackState}
    (hpack : s.packs[ref]? = some pack) (hpacks : s'.packs = s.packs.set ref pack') (hmade : s'.made_with = s.made_with)
    (hown : ∀ made, pack.used_run_tokens = made + s.standing (on_pack ref) →
      pack'.used_run_tokens = made + s'.standing (on_pack ref))
    (hother : ∀ other, ref ≠ other → s'.standing (on_pack other) = s.standing (on_pack other)) :
    ∀ (ref : Ref) (pack : PackState) (made : Nat), s'.packs[ref]? = some pack → s'.made_with[ref]? = some made →
      pack.used_run_tokens = made + s'.standing (on_pack ref) := by
  intro ref' found made hfound hborn
  rw [hpacks] at hfound
  rw [hmade] at hborn
  cases getElem?_set_cases hfound with
  | inl heq =>
    obtain ⟨rfl, rfl⟩ := heq
    exact hown made (h.run_tokens _ pack made hpack hborn)
  | inr hold =>
    rw [hother ref' (Ne.symm hold.1)]
    exact h.run_tokens ref' found made hold.2 hborn

/-- A pack more, on which nothing stands yet. -/
private theorem Accounted.of_make (hcon : Consistent s) (h : Accounted s) {pack : PackState}
    (hpacks : s'.packs = s.packs ++ [pack]) (hmade : s'.made_with = s.made_with ++ [pack.used_run_tokens])
    (husages : s'.usages = (s.broker.usage_for_run pack.run_id).1.usages)
    (hstanding : ∀ weight, s'.standing weight = s.standing weight)
    (hpending : ∀ call ∈ s'.calls, call.pending.isSome → call ∈ s.calls) (hforfeits : s'.forfeits = s.forfeits) :
    Accounted s' := by
  refine ⟨?_, ?_, ?_, hforfeits ▸ h.forfeits⟩
  · intro ref found made hfound hborn
    rw [hpacks] at hfound
    rw [hmade] at hborn
    rw [hstanding]
    cases getElem?_concat_cases hfound with
    | inl hnew =>
      obtain ⟨rfl, rfl⟩ := hnew
      rw [← hcon.made, List.getElem?_concat_length, Option.some.injEq] at hborn
      have hzero : s.standing (on_pack s.packs.length) = 0 :=
        standing_eq_zero hcon fun subject charge hlt => if_neg (Nat.ne_of_lt hlt)
      rw [hzero, hborn, Nat.add_zero]
    | inr hold =>
      have hlt := (List.getElem?_eq_some_iff.1 hold).1
      rw [List.getElem?_append_left (hcon.made ▸ hlt)] at hborn
      exact h.run_tokens ref found made hold hborn
  · intro usage subject
    rw [reading_usage_for_run husages, charged_concat hcon hstanding hpacks]
    exact h.agents usage subject
  · intro other hother charge hcharge snapshot hsnapshot found hfound
    have hold := hpending other hother (Option.isSome_of_mem hcharge)
    rw [hpacks, List.getElem?_append_left (hcon.backed other hold charge hcharge).1] at hfound
    exact h.levels other hold charge hcharge snapshot hsnapshot found hfound

/-- A step keeps the meters exact if a failing call restores what it finds and a cancelled one has
charged nothing. -/
theorem Accounted.booking (hcon : Consistent s) (h : Accounted s) (hexact : event.refunds_exactly s = true)
    (hbooking : Booking deps event s s') : Accounted s' := by
  cases hbooking with
  | keep hpacks husages hmade hstanding hpending hforfeits =>
    refine ⟨?_, ?_, ?_, ?_⟩
    · intro ref pack made
      rw [hpacks, hmade, hstanding]
      exact h.run_tokens ref pack made
    · intro usage subject
      rw [Server.charged, hstanding, hstanding, hpacks, Server.reading, husages]
      exact h.agents usage subject
    · intro call hcall charge hcharge
      rw [hpacks]
      exact h.levels call (hpending call hcall (Option.isSome_of_mem hcharge)) charge hcharge
    · cases hforfeits with
      | inl hsame => exact hsame ▸ h.forfeits
      | inr hcancel =>
        obtain ⟨i, landed, call, charge, hevent, hcall, hcharge, happended⟩ := hcancel
        simp only [hevent, Event.refunds_exactly, hcall, hcharge, Option.all_some, Bool.and_eq_true, beq_iff_eq] at hexact
        rw [happended]
        exact List.forall_mem_append.2 ⟨h.forfeits, List.forall_mem_singleton.2 hexact⟩
  | make i call pack hevent hcall hrun hmeter hpacks hmade husages hstanding hpending hforfeits =>
    exact h.of_make hcon hpacks hmade husages hstanding hpending hforfeits
  | charge i call stage charge cards recorded row pack charged hevent hcall htakes hpack hkept hused hpacks hmade husages
      hstanding hpending hrefund hcalls hforfeits =>
    refine ⟨run_tokens_of_set h hpack hpacks hmade ?_ ?_, ?_, ?_, hforfeits ▸ h.forfeits⟩
    · intro made hbefore
      rw [hstanding, on_pack, if_pos rfl, hused, hbefore, Nat.add_assoc]
    · intro other hne
      rw [hstanding, on_pack, if_neg hne, Nat.add_zero]
    · intro usage subject
      cases counts_add hcon hpack hkept hpacks husages hstanding usage subject with
      | inl hpays =>
        obtain ⟨rfl, rfl, hreading, hcharged⟩ := hpays
        rw [hreading, hcharged, ← h.agents]
        rfl
      | inr hother =>
        rw [hother.1, hother.2]
        exact h.agents usage subject
    · refine levels_of_set hcon h hcall (fun j other => htakes.charge_alone hcon hcall) ?_ hpacks hcalls
      intro other hother snapshot hsnapshot found hfound
      rw [hpending, Option.mem_some] at hother
      rw [hrefund, Option.mem_some] at hsnapshot
      subst hother hsnapshot
      rw [hpacks, List.getElem?_set_self (List.getElem?_eq_some_iff.1 hpack).1, Option.some.injEq] at hfound
      rw [← hfound, hused]
      rfl
  | refund i landed call stage charge snapshot pack restored hevent hcall hpending hrefund hpack hkept hused hpacks
      hmade husages hstanding hnone hcalls hforfeits =>
    have hmem : call ∈ s.calls := List.mem_of_getElem? hcall
    have hlevel := h.levels call hmem charge hpending snapshot hrefund pack hpack
    have hholds := (hcon.backed call hmem charge hpending).2.1
    -- the meter reads what it read after the charge
    have hmeter : s.usage_for pack call.requester.subject =
        AgentUsage.add { requests := snapshot.agent_requests, tokens := snapshot.agent_tokens } charge.requests
          charge.tokens := by
      simpa only [hevent, Event.refunds_exactly, hcall, Option.all_some, Call.refund_levels, hpending, hrefund, hpack,
        Option.map_some, beq_iff_eq] using hexact
    refine ⟨run_tokens_of_set h hpack hpacks hmade ?_ ?_, ?_, ?_, hforfeits ▸ h.forfeits⟩
    · intro made hbefore
      have hmoved := hstanding (on_pack charge.pack)
      rw [on_pack, if_pos rfl] at hmoved
      rw [hused]
      omega
    · intro other hne
      have hmoved := hstanding (on_pack other)
      rwa [on_pack, if_neg hne, Nat.add_zero] at hmoved
    · intro usage subject
      cases counts_sub hcon hpack hkept hpacks husages hstanding usage subject with
      | inl hpays =>
        obtain ⟨rfl, rfl, hreading, hcharged⟩ := hpays
        rw [← h.agents] at hcharged
        rw [hreading]
        exact AgentUsage.add_right_cancel (hmeter.symm.trans hcharged)
      | inr hother =>
        rw [hother.1, hother.2]
        exact h.agents usage subject
    · refine levels_of_set hcon h hcall ?_ ?_ hpacks hcalls
      · exact fun j other hother hne hlock => hne (hcon.exclusive j i other call charge.pack hother hcall hlock hholds)
      · intro other hother
        rw [hnone] at hother
        simp at hother

/-- The meters of every pack and agent read the sums over the charges that `total` counts. -/
structure MetersRead (s : Server) (total : (String → Charge → Nat) → Nat) : Prop where
  run_tokens : ∀ (ref : Ref) (pack : PackState), s.packs[ref]? = some pack → ∃ made, s.made_with[ref]? = some made ∧
    pack.used_run_tokens = made + total (on_pack ref)
  agent_requests : ∀ pack ∈ s.packs, ∀ subject, (s.usage_for pack subject).requests =
    total (through s.packs (metered_by pack.agent_usage) subject Charge.requests)
  agent_tokens : ∀ pack ∈ s.packs, ∀ subject, (s.usage_for pack subject).tokens =
    total (through s.packs (metered_by pack.agent_usage) subject Charge.tokens)

/-- No call is on its way. -/
def Quiescent (s : Server) : Prop := ∀ call ∈ s.calls, call.stage = .done

instance (s : Server) : Decidable (Quiescent s) := inferInstanceAs (Decidable (∀ call ∈ s.calls, call.stage = .done))

theorem Quiescent.pending (h : Quiescent s) (weight : String → Charge → Nat) : s.pending weight = 0 := by
  refine List.sum_eq_zero ?_
  intro n hn
  obtain ⟨call, hcall, rfl⟩ := List.mem_map.1 hn
  exact Call.weigh_of_none weight (by rw [Call.pending, h call hcall])

theorem Accounted.meters (hcon : Consistent s) (h : Accounted s) :
    MetersRead s fun weight => s.answered weight + s.pending weight := by
  have hforfeited : ∀ weight : String → Charge → Nat, (∀ forfeit ∈ s.forfeits, weight forfeit.1 forfeit.2 = 0) →
      s.standing weight = s.answered weight + s.pending weight := by
    intro weight hweight
    have hzero : s.forfeited weight = 0 := by
      refine List.sum_eq_zero ?_
      intro n hn
      obtain ⟨forfeit, hforfeit, rfl⟩ := List.mem_map.1 hn
      exact hweight forfeit hforfeit
    rw [Server.standing, hzero, Nat.add_zero]
  refine ⟨?_, ?_, ?_⟩
  · intro ref pack hpack
    have hlt : ref < s.made_with.length := hcon.made ▸ (List.getElem?_eq_some_iff.1 hpack).1
    refine ⟨_, List.getElem?_eq_getElem hlt, ?_⟩
    rw [← hforfeited]
    · exact h.run_tokens ref pack _ hpack (List.getElem?_eq_getElem hlt)
    · intro forfeit hforfeit
      rw [on_pack, (h.forfeits forfeit hforfeit).2, ite_self]
  · intro pack hpack subject
    rw [← hforfeited]
    · exact congrArg AgentUsage.requests (h.agents pack.agent_usage subject)
    · intro forfeit hforfeit
      rw [through, (h.forfeits forfeit hforfeit).1, ite_self]
  · intro pack hpack subject
    rw [← hforfeited]
    · exact congrArg AgentUsage.tokens (h.agents pack.agent_usage subject)
    · intro forfeit hforfeit
      rw [through, (h.forfeits forfeit hforfeit).2, ite_self]

/-- The meters read what the calls have charged that returned or whose rows are on the way, and so, when no
call is on its way, what exactly the calls have charged that returned. -/
structure MetersExact (s : Server) : Prop where
  standing : MetersRead s fun weight => s.answered weight + s.pending weight
  quiescent : Quiescent s → MetersRead s s.answered

theorem Accounted.exact (hcon : Consistent s) (h : Accounted s) : MetersExact s := by
  refine ⟨h.meters hcon, fun hquiescent => ?_⟩
  have htotal : (fun weight => s.answered weight + s.pending weight) = s.answered := by
    funext weight
    rw [hquiescent.pending, Nat.add_zero]
  exact htotal ▸ h.meters hcon

/-- The meters are exact in every run whose failing calls find their agent's meter as they left it and whose
cancelled calls have charged nothing. -/
theorem refunds_exact (deps : ServerDeps) (db : Database) (events : List Event)
    (hexact : Along (Server.step deps) (fun s event => event.refunds_exactly s = true) (.start db) events) :
    MetersExact (events.foldl (Server.step deps) (.start db)) := by
  obtain ⟨hcon, haccounted⟩ := hexact.invariant (I := fun s => Consistent s ∧ Accounted s)
    (fun s event _ h hok => ⟨h.1.effect (step_effect h.1 event), h.2.booking h.1 hok (step_effect h.1 event).booking⟩)
    ⟨consistent_start db, accounted_start db⟩
  exact haccounted.exact hcon

end Step

section LostCharge

/-- A call that charges a pack of the run, and another one of a second pack. -/
def two_charges : List Event :=
  makes_pack 0 "p" 10 ++ makes_pack 1 "q" 10 ++ [expands "p" 1, expands "q" 2] ++ List.replicate 4 (.resume 2)

/-- The ledger row of the first call fails after the second call has returned. -/
def late_failure : List Event := two_charges ++ List.replicate 5 (.resume 3) ++ [.fail 2 false, .resume 2]

/-- The first call gives back what the second has charged as well. -/
theorem refunds_exact_lost_charge : ¬ MetersExact (late_failure.foldl (Server.step .plain) (.start file_database)) := by
  intro h
  have hquiescent : Quiescent (late_failure.foldl (Server.step .plain) (.start file_database)) := by decide +kernel
  have hlost : ∃ pack ∈ (late_failure.foldl (Server.step .plain) (.start file_database)).packs,
      ((late_failure.foldl (Server.step .plain) (.start file_database)).usage_for pack "agent").tokens = 0 ∧
        (late_failure.foldl (Server.step .plain) (.start file_database)).answered
          (through (late_failure.foldl (Server.step .plain) (.start file_database)).packs
            (metered_by pack.agent_usage) "agent" Charge.tokens) = 2 := by decide +kernel
  obtain ⟨pack, hpack, hzero, htwo⟩ := hlost
  have hread := (h.quiescent hquiescent).agent_tokens pack hpack "agent"
  omega

/-- It fails before the second call charges. -/
def early_failure : List Event := two_charges ++ [.fail 2 false, .resume 2] ++ List.replicate 5 (.resume 3)

theorem refunds_exact_early_failure : MetersExact (early_failure.foldl (Server.step .plain) (.start file_database)) :=
  refunds_exact .plain file_database _ (by decide +kernel)

end LostCharge

end AgenticKb.ContextBroker

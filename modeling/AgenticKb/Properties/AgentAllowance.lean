import AgenticKb.Properties.PackRefunds

open AgenticKb.Lib

namespace AgenticKb.ContextBroker

/-- A usage within an allowance. -/
def AgentUsage.within (usage : AgentUsage) (allowance : AgentAllowance) : Prop :=
  usage.requests ≤ allowance.max_requests ∧ usage.tokens ≤ allowance.max_tokens

def AgentUsage.le (usage usage' : AgentUsage) : Prop :=
  usage.requests ≤ usage'.requests ∧ usage.tokens ≤ usage'.tokens

instance (usage : AgentUsage) (allowance : AgentAllowance) : Decidable (usage.within allowance) :=
  inferInstanceAs (Decidable (_ ∧ _))

instance (usage usage' : AgentUsage) : Decidable (usage.le usage') := inferInstanceAs (Decidable (_ ∧ _))

section Conditions

variable (deps : ServerDeps) (s : Server)

/-- The run of the pack that a call may make now still has the meter of all its packs. -/
def Call.keeps_meter (call : Call) : Bool :=
  call.stage.makes.all fun run_id => s.packs.all fun pack =>
    !of_run run_id pack || metered_by (s.broker.usage_for_run run_id).2 pack

/-- The agent's allowance still covers what a call has been cleared for, and the cards of an expansion that
comes to its pack's lock. -/
def Call.keeps_allowance (call : Call) : Bool :=
  let covers (pack : Ref) (requests tokens : Nat) : Bool := (s.packs[pack]?).all fun state => decide <|
    ((s.usage_for state call.requester.subject).add requests tokens).within
      (deps.budget_policy.allowance_for call.requester.subject)
  match call.stage with
  | .more_search request pack | .more_hydrate request pack _ => covers pack 1 request.max_tokens
  | .expand_lock _ pack response => s.locked pack || covers pack 0 response.tokens_used
  | _ => true

/-- A failing call does not take back what others have charged meanwhile. -/
def Call.erases_nothing (call : Call) : Bool := (call.refund_levels s).all fun levels => decide (levels.1.le levels.2)

def Event.keeps_allowances : Event → Bool
  | .resume i => (s.calls[i]?).all fun call => call.keeps_meter s && call.keeps_allowance deps s
  | .fail i _ => (s.calls[i]?).all fun call => call.erases_nothing s
  | _ => true

end Conditions

/-- No meter falls behind the charges that stand or goes beyond an allowance, no refund would either, and the
packs of a run share its meter. -/
structure Allowed (deps : ServerDeps) (s : Server) : Prop where
  counted : ∀ (usage : Ref) (subject : String), (s.charged (metered_by usage) subject).le (s.reading usage subject)
  within : ∀ (usage : Ref) (subject : String),
    (s.reading usage subject).within (deps.budget_policy.allowance_for subject)
  refunds : ∀ call ∈ s.calls, call.pending.isSome → ∀ snapshot ∈ call.refund,
    AgentUsage.within { requests := snapshot.agent_requests, tokens := snapshot.agent_tokens }
      (deps.budget_policy.allowance_for call.requester.subject)
  runs : ∀ pack ∈ s.packs, ∀ other ∈ s.packs, pack.run_id = other.run_id → pack.agent_usage = other.agent_usage

theorem allowed_start (deps : ServerDeps) (db : Database) : Allowed deps (.start db) := by
  refine ⟨?_, ?_, by simp [Server.start], by simp [Server.start]⟩
  · exact fun usage subject => ⟨Nat.zero_le _, Nat.zero_le _⟩
  · exact fun usage subject => ⟨Nat.zero_le _, Nat.zero_le _⟩

section Step

variable {deps : ServerDeps} {s s' : Server} {event : Event}

/-- A charge that a call may take leaves its agent within its allowance. -/
theorem charge_within {call : Call} {charge : Charge} {cards : List EvidenceCard}
    {recorded : Option PastRetrieval} {row : Writing} {pack : PackState}
    (htakes : Takes deps s call (.charge charge cards recorded row)) (hpack : s.packs[charge.pack]? = some pack)
    (hwithin : (s.usage_for pack call.requester.subject).within (deps.budget_policy.allowance_for call.requester.subject))
    (hkeeps : call.keeps_allowance deps s = true) :
    ((s.usage_for pack call.requester.subject).add charge.requests charge.tokens).within
      (deps.budget_policy.allowance_for call.requester.subject) := by
  cases htakes with
  | more _ _ _ _ max_tokens hasks hholds htokens _ _ hrequests =>
    have hcovers : ((s.usage_for pack call.requester.subject).add 1 max_tokens).within
        (deps.budget_policy.allowance_for call.requester.subject) := by
      unfold Call.keeps_allowance at hkeeps
      cases hstage : call.stage with
      | more_search request ref =>
        simp only [hstage, Stage.asks, Option.some.injEq, Prod.mk.injEq] at hasks
        simp only [hstage, hasks.1, hasks.2, hpack, Option.all_some, decide_eq_true_eq] at hkeeps
        exact hkeeps
      | more_hydrate request ref hits =>
        simp only [hstage, Stage.asks, Option.some.injEq, Prod.mk.injEq] at hasks
        simp only [hstage, hasks.1, hasks.2, hpack, Option.all_some, decide_eq_true_eq] at hkeeps
        exact hkeeps
      | _ => simp [hstage, Stage.asks] at hasks
    rw [hrequests]
    exact ⟨hcovers.1, Nat.le_trans (Nat.add_le_add_left htokens _) hcovers.2⟩
  | opened _ _ _ _ found _ hfound _ hrequests hallowed _ =>
    rw [hpack, Option.some.injEq] at hfound
    subst hfound
    rw [hrequests]
    exact ⟨hwithin.1, hallowed⟩
  | expanded expansion response _ _ _ _ found hstage hfree hfound htokens hrequests _ =>
    simp only [Call.keeps_allowance, hstage, hfree, hpack, Bool.false_or, Option.all_some, decide_eq_true_eq] at hkeeps
    rw [htokens, hrequests]
    exact hkeeps

/-- One of the packs changes, but neither its run nor its meter. -/
private theorem runs_set {packs : List PackState} {ref : Ref} {pack pack' : PackState} (hpack : packs[ref]? = some pack)
    (hkept : SamePack pack pack')
    (h : ∀ pack ∈ packs, ∀ other ∈ packs, pack.run_id = other.run_id → pack.agent_usage = other.agent_usage) :
    ∀ pack ∈ packs.set ref pack', ∀ other ∈ packs.set ref pack', pack.run_id = other.run_id →
      pack.agent_usage = other.agent_usage := by
  have hold : ∀ other ∈ packs.set ref pack', ∃ before ∈ packs, other.run_id = before.run_id ∧
      other.agent_usage = before.agent_usage := by
    intro other hother
    cases List.mem_or_eq_of_mem_set hother with
    | inl hmem => exact ⟨other, hmem, rfl, rfl⟩
    | inr heq => exact ⟨pack, List.mem_of_getElem? hpack, heq ▸ hkept.run_id, heq ▸ hkept.agent_usage⟩
  intro first hfirst second hsecond hrun
  obtain ⟨before, hbefore, hrun₁, husage₁⟩ := hold first hfirst
  obtain ⟨before', hbefore', hrun₂, husage₂⟩ := hold second hsecond
  rw [husage₁, husage₂]
  exact h before hbefore before' hbefore' (hrun₁.symm.trans (hrun.trans hrun₂))

/-- A pack is made around the meter that all packs of its run have. -/
private theorem runs_concat {packs : List PackState} {pack : PackState}
    (hlasts : ∀ other ∈ packs, other.run_id = pack.run_id → other.agent_usage = pack.agent_usage)
    (h : ∀ pack ∈ packs, ∀ other ∈ packs, pack.run_id = other.run_id → pack.agent_usage = other.agent_usage) :
    ∀ first ∈ packs ++ [pack], ∀ second ∈ packs ++ [pack], first.run_id = second.run_id →
      first.agent_usage = second.agent_usage := by
  intro first hfirst second hsecond hsame
  cases List.mem_append.1 hfirst with
  | inl hold =>
    cases List.mem_append.1 hsecond with
    | inl hold' => exact h first hold second hold' hsame
    | inr hnew =>
      obtain rfl := List.mem_singleton.1 hnew
      exact hlasts first hold hsame
  | inr hnew =>
    obtain rfl := List.mem_singleton.1 hnew
    cases List.mem_append.1 hsecond with
    | inl hold => exact (hlasts second hold hsame.symm).symm
    | inr hnew' =>
      obtain rfl := List.mem_singleton.1 hnew'
      rfl

/-- A step keeps the allowances if the meters of the runs last, the agents' allowances still cover what is
charged, and no refund takes back what others have charged. -/
theorem Allowed.booking (hcon : Consistent s) (h : Allowed deps s) (hkeeps : event.keeps_allowances deps s = true)
    (hbooking : Booking deps event s s') : Allowed deps s' := by
  cases hbooking with
  | keep hpacks husages hmade hstanding hpending hforfeits =>
    refine ⟨?_, ?_, ?_, ?_⟩
    · intro usage subject
      rw [Server.charged, hstanding, hstanding, hpacks, Server.reading, husages]
      exact h.counted usage subject
    · intro usage subject
      rw [Server.reading, husages]
      exact h.within usage subject
    · exact fun call hcall hsome => h.refunds call (hpending call hcall hsome) hsome
    · rw [hpacks]
      exact h.runs
  | make i call pack hevent hcall hrun hmeter hpacks hmade husages hstanding hpending hforfeits =>
    have hlasts : ∀ other ∈ s.packs, other.run_id = pack.run_id → other.agent_usage = pack.agent_usage := by
      intro other hother hsame
      simp only [hevent, Event.keeps_allowances, hcall, Option.all_some, Bool.and_eq_true, Call.keeps_meter, hrun,
        List.all_eq_true] at hkeeps
      have hmetered := hkeeps.1 other hother
      simp only [of_run, hsame, beq_self_eq_true, Bool.not_true, Bool.false_or] at hmetered
      rw [hmeter, metered_by_iff.1 hmetered]
    refine ⟨?_, ?_, ?_, ?_⟩
    · intro usage subject
      rw [reading_usage_for_run husages, charged_concat hcon hstanding hpacks]
      exact h.counted usage subject
    · intro usage subject
      rw [reading_usage_for_run husages]
      exact h.within usage subject
    · exact fun call hcall hsome => h.refunds call (hpending call hcall hsome) hsome
    · rw [hpacks]
      exact runs_concat hlasts h.runs
  | charge i call stage charge cards recorded row pack charged hevent hcall htakes hpack hkept hused hpacks hmade husages
      hstanding hpending hrefund hcalls hforfeits =>
    have hwithin := h.within pack.agent_usage call.requester.subject
    have hcharged : ((s.usage_for pack call.requester.subject).add charge.requests charge.tokens).within
        (deps.budget_policy.allowance_for call.requester.subject) := by
      simp only [hevent, Event.keeps_allowances, hcall, Option.all_some, Bool.and_eq_true] at hkeeps
      exact charge_within htakes hpack hwithin hkeeps.2
    have hcounts := counts_add hcon hpack hkept hpacks husages hstanding
    refine ⟨?_, ?_, ?_, ?_⟩
    · intro usage subject
      cases hcounts usage subject with
      | inl hpays =>
        obtain ⟨rfl, rfl, hreading, hsum⟩ := hpays
        obtain ⟨hrequests, htokens⟩ := h.counted pack.agent_usage call.requester.subject
        rw [hreading, hsum]
        exact ⟨Nat.add_le_add_right hrequests _, Nat.add_le_add_right htokens _⟩
      | inr hother =>
        rw [hother.1, hother.2]
        exact h.counted usage subject
    · intro usage subject
      cases hcounts usage subject with
      | inl hpays =>
        rw [hpays.2.2.1, hpays.2.1]
        exact hcharged
      | inr hother =>
        rw [hother.1]
        exact h.within usage subject
    · rw [hcalls]
      refine forall_mem_modify (fun _ _ _ _ h => h) h.refunds hcall ?_
      intro hsome snapshot hsnapshot
      rw [hrefund, Option.mem_some] at hsnapshot
      subst hsnapshot
      exact hwithin
    · rw [hpacks]
      exact runs_set hpack hkept h.runs
  | refund i landed call stage charge snapshot pack restored hevent hcall hpending hrefund hpack hkept hused hpacks
      hmade husages hstanding hnone hcalls hforfeits =>
    have hsnapshot := h.refunds call (List.mem_of_getElem? hcall) (by rw [hpending]; rfl) snapshot hrefund
    -- what the meter reads is at most what it read after the charge
    have hmeter : (s.usage_for pack call.requester.subject).le
        (AgentUsage.add { requests := snapshot.agent_requests, tokens := snapshot.agent_tokens } charge.requests
          charge.tokens) := by
      simpa only [hevent, Event.keeps_allowances, hcall, Option.all_some, Call.erases_nothing, Call.refund_levels, hpending,
        hrefund, hpack, Option.map_some, decide_eq_true_eq] using hkeeps
    have hcounts := counts_sub hcon hpack hkept hpacks husages hstanding
    refine ⟨?_, ?_, ?_, ?_⟩
    · intro usage subject
      have hcounted := h.counted usage subject
      cases hcounts usage subject with
      | inl hpays =>
        obtain ⟨rfl, rfl, hreading, hsum⟩ := hpays
        rw [hsum] at hcounted
        rw [hreading]
        exact ⟨Nat.le_of_add_le_add_right (Nat.le_trans hcounted.1 hmeter.1),
          Nat.le_of_add_le_add_right (Nat.le_trans hcounted.2 hmeter.2)⟩
      | inr hother =>
        rw [hother.1, hother.2]
        exact hcounted
    · intro usage subject
      cases hcounts usage subject with
      | inl hpays =>
        rw [hpays.2.2.1, hpays.2.1]
        exact hsnapshot
      | inr hother =>
        rw [hother.1]
        exact h.within usage subject
    · rw [hcalls]
      refine forall_mem_modify (fun _ _ _ _ h => h) h.refunds hcall ?_
      intro hsome
      rw [hnone] at hsome
      simp at hsome
    · rw [hpacks]
      exact runs_set hpack hkept h.runs

/-- What an agent is charged through the packs of a run its one meter counts. -/
theorem Allowed.run_within (h : Allowed deps s) (run_id subject : String) :
    (s.charged (of_run run_id) subject).within (deps.budget_policy.allowance_for subject) := by
  -- the charges of the run are among those of the meter of any of its packs
  obtain ⟨usage, husage⟩ : ∃ usage, ∀ pack ∈ s.packs, of_run run_id pack = true → metered_by usage pack = true := by
    by_cases hpack : ∃ pack ∈ s.packs, of_run run_id pack = true
    · obtain ⟨pack, hmem, hrun⟩ := hpack
      refine ⟨pack.agent_usage, fun other hother hrun' => ?_⟩
      rw [of_run, beq_iff_eq] at hrun hrun'
      exact metered_by_iff.2 (h.runs pack hmem other hother (hrun.trans hrun'.symm))
    · exact ⟨0, fun pack hmem hrun => absurd ⟨pack, hmem, hrun⟩ hpack⟩
  have hle : ∀ measure : Charge → Nat, s.standing (through s.packs (of_run run_id) subject measure) ≤
      s.standing (through s.packs (metered_by usage) subject measure) := by
    intro measure
    refine standing_mono fun payer charge => ?_
    cases hpack : s.packs[charge.pack]? with
    | none => simp only [through, hpack, Option.any_none, Bool.false_eq_true, and_false, if_false, le_refl]
    | some pack =>
      rw [through_of_pack hpack, through_of_pack hpack]
      by_cases hpays : payer = subject ∧ of_run run_id pack = true
      · rw [if_pos hpays, if_pos ⟨hpays.1, husage pack (List.mem_of_getElem? hpack) hpays.2⟩]
      · rw [if_neg hpays]
        exact Nat.zero_le _
  have hcounted := h.counted usage subject
  have hwithin := h.within usage subject
  exact ⟨Nat.le_trans (hle Charge.requests) (Nat.le_trans hcounted.1 hwithin.1),
    Nat.le_trans (hle Charge.tokens) (Nat.le_trans hcounted.2 hwithin.2)⟩

/-- In every run in which a new pack finds the meter of its run, the agents' allowances still cover what is
charged when it is charged, and no failing call takes back what others have charged, no agent is charged more
over the packs of a run than it is allowed. -/
theorem allowance_kept (deps : ServerDeps) (db : Database) (events : List Event)
    (hkeeps : Along (Server.step deps) (fun s event => event.keeps_allowances deps s = true) (.start db) events)
    (run_id subject : String) :
    ((events.foldl (Server.step deps) (.start db)).charged (of_run run_id) subject).within
      (deps.budget_policy.allowance_for subject) := by
  obtain ⟨-, hallowed⟩ := hkeeps.invariant (I := fun s => Consistent s ∧ Allowed deps s)
    (fun s event _ h hok => ⟨h.1.effect (step_effect h.1 event), h.2.booking h.1 hok (step_effect h.1 event).booking⟩)
    ⟨consistent_start db, allowed_start deps db⟩
  exact hallowed.run_within run_id subject

end Step

section Unchecked

/-- An agent of one token. -/
def poor_agent : BudgetPolicy := { default_allowance := { max_requests := 1, max_tokens := 1 } }

/-- One expansion through each of two packs of a run. -/
def two_expansions : List Event :=
  two_charges ++ [.resume 2] ++ List.replicate 5 (.resume 3)

/-- An expansion is charged to an agent that may not have it. -/
theorem allowance_kept_unchecked :
    ¬ ((two_expansions.foldl (Server.step { ServerDeps.plain with budget_policy := poor_agent }) (.start file_database)).charged
        (of_run "run") "agent").within (poor_agent.allowance_for "agent") := by
  decide +kernel

/-- An agent of four thousand tokens may have both. -/
theorem allowance_kept_two_expansions :
    ((two_expansions.foldl (Server.step .plain) (.start file_database)).charged (of_run "run") "agent").within
      (ServerDeps.plain.budget_policy.allowance_for "agent") :=
  allowance_kept .plain file_database two_expansions (by decide +kernel) "run" "agent"

end Unchecked

end AgenticKb.ContextBroker

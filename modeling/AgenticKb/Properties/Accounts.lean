import AgenticKb.Properties.ServerSteps

open AgenticKb.Lib

namespace AgenticKb.ContextBroker

/-- What a call that has charged contributes to a sum over charges, each weighed with the agent that pays it. -/
def Call.weigh (weight : String → Charge → Nat) (call : Call) : Nat := call.pending.elim 0 (weight call.requester.subject)

def Answer.weigh (weight : String → Charge → Nat) (answer : Answer) : Nat := answer.reply.charge.elim 0 (weight answer.subject)

namespace Server

variable (s : Server) (weight : String → Charge → Nat)

/-- The charges of the calls that have returned. -/
def answered : Nat := (s.answers.map (Answer.weigh weight)).sum

/-- The charges of the calls whose rows are on the way. -/
def pending : Nat := (s.calls.map (Call.weigh weight)).sum

/-- The charges of the calls that were cancelled meanwhile. -/
def forfeited : Nat := (s.forfeits.map fun forfeit => weight forfeit.1 forfeit.2).sum

/-- All charges that have been taken and not given back. -/
def standing : Nat := s.answered weight + s.pending weight + s.forfeited weight

/-- What a meter reads for an agent. -/
def reading (usage : Ref) (subject : String) : AgentUsage := ((s.usages[usage]?).bind (·.get? subject)).getD {}

end Server

/-- The tokens that are charged to one pack. -/
def on_pack (ref : Ref) (_ : String) (charge : Charge) : Nat := if charge.pack = ref then charge.tokens else 0

/-- What one agent is charged through some of the packs. -/
def through (packs : List PackState) (chosen : PackState → Bool) (subject : String) (measure : Charge → Nat)
    (payer : String) (charge : Charge) : Nat :=
  if payer = subject ∧ (packs[charge.pack]?).any chosen = true then measure charge else 0

/-- The requests and tokens that one agent is charged through some of the packs. -/
def Server.charged (s : Server) (chosen : PackState → Bool) (subject : String) : AgentUsage :=
  { requests := s.standing (through s.packs chosen subject Charge.requests)
    tokens := s.standing (through s.packs chosen subject Charge.tokens) }

/-- The packs that are built around one meter. -/
def metered_by (usage : Ref) (pack : PackState) : Bool := pack.agent_usage == usage

/-- The packs of one run. -/
def of_run (run_id : String) (pack : PackState) : Bool := pack.run_id == run_id

/-- For a call that has charged: what its agent's meter reads now, and what it read when the charge was taken. -/
def Call.refund_levels (s : Server) (call : Call) : Option (AgentUsage × AgentUsage) :=
  match call.pending, call.refund with
  | some charge, some snapshot => (s.packs[charge.pack]?).map fun pack =>
      (s.usage_for pack call.requester.subject,
        AgentUsage.add { requests := snapshot.agent_requests, tokens := snapshot.agent_tokens } charge.requests
          charge.tokens)
  | _, _ => none

theorem metered_by_iff {usage : Ref} {pack : PackState} : metered_by usage pack = true ↔ usage = pack.agent_usage := by
  rw [metered_by, beq_iff_eq, eq_comm]

theorem AgentUsage.add_right_cancel {usage usage' : AgentUsage} {requests tokens : Nat}
    (h : usage.add requests tokens = usage'.add requests tokens) : usage = usage' := by
  obtain ⟨r, t⟩ := usage
  obtain ⟨r', t'⟩ := usage'
  simp only [AgentUsage.add, AgentUsage.mk.injEq] at h ⊢
  omega

/-- What one step can do to the accounts. -/
inductive Booking (deps : ServerDeps) (event : Event) (s s' : Server) : Prop
  /-- The packs and meters are as they were, and so are the charges, wherever they are booked now. -/
  | keep (hpacks : s'.packs = s.packs) (husages : s'.usages = s.usages) (hmade : s'.made_with = s.made_with)
      (hstanding : ∀ weight, s'.standing weight = s.standing weight)
      (hpending : ∀ call ∈ s'.calls, call.pending.isSome → call ∈ s.calls)
      (hforfeits : s'.forfeits = s.forfeits ∨ ∃ i landed call charge, event = .cancel i landed ∧
        s.calls[i]? = some call ∧ call.pending = some charge ∧
          s'.forfeits = s.forfeits ++ [(call.requester.subject, charge)])
  /-- A pack is made around the meter of its run. -/
  | make (i : Nat) (call : Call) (pack : PackState) (hevent : event = .resume i) (hcall : s.calls[i]? = some call)
      (hrun : call.stage.makes = some pack.run_id) (hmeter : pack.agent_usage = (s.broker.usage_for_run pack.run_id).2)
      (hpacks : s'.packs = s.packs ++ [pack]) (hmade : s'.made_with = s.made_with ++ [pack.used_run_tokens])
      (husages : s'.usages = (s.broker.usage_for_run pack.run_id).1.usages)
      (hstanding : ∀ weight, s'.standing weight = s.standing weight)
      (hpending : ∀ call ∈ s'.calls, call.pending.isSome → call ∈ s.calls) (hforfeits : s'.forfeits = s.forfeits)
  /-- A charge is taken from a pack and from a meter. -/
  | charge (i : Nat) (call : Call) (stage : Stage) (charge : Charge) (cards : List EvidenceCard)
      (recorded : Option PastRetrieval) (row : Writing) (pack charged : PackState) (hevent : event = .resume i)
      (hcall : s.calls[i]? = some call) (htakes : Takes deps s call (.charge charge cards recorded row))
      (hpack : s.packs[charge.pack]? = some pack) (hkept : SamePack pack charged)
      (hused : charged.used_run_tokens = pack.used_run_tokens + charge.tokens)
      (hpacks : s'.packs = s.packs.set charge.pack charged) (hmade : s'.made_with = s.made_with)
      (husages : s'.usages = s.usages.modify pack.agent_usage fun usages => usages.set call.requester.subject
        ((s.usage_for pack call.requester.subject).add charge.requests charge.tokens))
      (hstanding : ∀ weight, s'.standing weight = s.standing weight + weight call.requester.subject charge)
      (hpending : ({ call with stage } : Call).pending = some charge)
      (hrefund : ({ call with stage } : Call).refund = some (s.snapshot pack call.requester.subject))
      (hcalls : s'.calls = s.calls.modify i fun call => { call with stage }) (hforfeits : s'.forfeits = s.forfeits)
  /-- A charge is given back. -/
  | refund (i : Nat) (landed : Bool) (call : Call) (stage : Stage) (charge : Charge) (snapshot : PackSnapshot)
      (pack restored : PackState) (hevent : event = .fail i landed) (hcall : s.calls[i]? = some call)
      (hpending : call.pending = some charge) (hrefund : call.refund = some snapshot)
      (hpack : s.packs[charge.pack]? = some pack) (hkept : SamePack pack restored)
      (hused : restored.used_run_tokens = snapshot.used_run_tokens)
      (hpacks : s'.packs = s.packs.set charge.pack restored) (hmade : s'.made_with = s.made_with)
      (husages : s'.usages = s.usages.modify pack.agent_usage fun usages => usages.set call.requester.subject
        { requests := snapshot.agent_requests, tokens := snapshot.agent_tokens })
      (hstanding : ∀ weight, s'.standing weight + weight call.requester.subject charge = s.standing weight)
      (hnone : ({ call with stage } : Call).pending = none)
      (hcalls : s'.calls = s.calls.modify i fun call => { call with stage }) (hforfeits : s'.forfeits = s.forfeits)

section Booking

variable {deps : ServerDeps} {event : Event} {s s' : Server} (weight : String → Charge → Nat)

theorem Call.weigh_of_none {call : Call} (h : call.pending = none) : call.weigh weight = 0 := by
  rw [Call.weigh, h, Option.elim_none]

theorem Call.weigh_of_some {call : Call} {charge : Charge} (h : call.pending = some charge) :
    call.weigh weight = weight call.requester.subject charge := by
  rw [Call.weigh, h, Option.elim_some]

/-- A call goes on: the charges on the way change by its own. -/
theorem pending_modify {i : Nat} {call : Call} {stage : Stage} (hcall : s.calls[i]? = some call)
    (hcalls : s'.calls = s.calls.modify i fun call => { call with stage }) :
    s'.pending weight + call.weigh weight = s.pending weight + ({ call with stage } : Call).weigh weight := by
  rw [Server.pending, hcalls]
  exact sum_map_modify (Call.weigh weight) hcall

theorem standing_modify {i : Nat} {call : Call} {stage : Stage} (hcall : s.calls[i]? = some call)
    (hanswers : s'.answers = s.answers) (hforfeits : s'.forfeits = s.forfeits)
    (hcalls : s'.calls = s.calls.modify i fun call => { call with stage }) :
    s'.standing weight + call.weigh weight = s.standing weight + ({ call with stage } : Call).weigh weight := by
  have hmoved := pending_modify weight hcall hcalls
  simp only [Server.standing, Server.answered, Server.forfeited, hanswers, hforfeits]
  omega

/-- A call that has charged nothing and charges nothing goes on. -/
private theorem mem_of_modify {i : Nat} {call : Call} {stage : Stage} (hcall : s.calls[i]? = some call)
    (hnone : ({ call with stage } : Call).pending = none)
    (hcalls : s'.calls = s.calls.modify i fun call => { call with stage }) :
    ∀ other ∈ s'.calls, other.pending.isSome → other ∈ s.calls := by
  rw [hcalls]
  refine forall_mem_modify (fun _ _ _ _ h => h) (fun other hother _ => hother) hcall ?_
  intro hsome
  rw [hnone] at hsome
  simp at hsome

/-- Every step is one of the bookings. -/
theorem Effect.booking (heffect : Effect deps event s s') : Booking deps event s s' := by
  cases heffect with
  | quiet hsame hcalls answers hanswers huncharged hforfeits =>
    refine .keep hsame.packs hsame.usages hsame.made_with (fun weight => ?_) (fun call hcall _ => hcalls ▸ hcall)
      (.inl hforfeits)
    have hzero : (answers.map (Answer.weigh weight)).sum = 0 := by
      refine List.sum_eq_zero ?_
      intro n hn
      obtain ⟨answer, hanswer, rfl⟩ := List.mem_map.1 hn
      rw [Answer.weigh, huncharged answer hanswer, Option.elim_none]
    simp only [Server.standing, Server.answered, Server.pending, Server.forfeited, hanswers, hcalls, hforfeits,
      List.map_append, List.sum_append, hzero, Nat.add_zero]
  | arrive hsame hanswers call hfree hcalls hforfeits =>
    have hnone : call.pending = none := Stage.pending_of_uncharged hfree.uncharged
    refine .keep hsame.packs hsame.usages hsame.made_with (fun weight => ?_) ?_ (.inl hforfeits)
    · simp only [Server.standing, Server.answered, Server.pending, Server.forfeited, hanswers, hcalls, hforfeits,
        List.map_append, List.sum_append, List.map_singleton, List.sum_singleton, Call.weigh_of_none weight hnone, Nat.add_zero]
    · intro other hother hsome
      rw [hcalls] at hother
      cases List.mem_append.1 hother with
      | inl hold => exact hold
      | inr hnew =>
        rw [List.mem_singleton.1 hnew, hnone] at hsome
        simp at hsome
  | move hsame hanswers i call stage hcall hpending htakes hcalls hforfeits =>
    refine .keep hsame.packs hsame.usages hsame.made_with (fun weight => ?_) (mem_of_modify hcall htakes.pending hcalls)
      (.inl hforfeits)
    have hmoved := standing_modify weight hcall hanswers hforfeits hcalls
    rw [Call.weigh_of_none weight hpending, Call.weigh_of_none weight htakes.pending] at hmoved
    exact hmoved
  | make hanswers i call pack row hevent hcall hpending haction htakes hpacks hmade husages hstore hcalls hforfeits =>
    obtain ⟨hrun, hmeter, huncharged⟩ : call.stage.makes = some pack.run_id ∧
        pack.agent_usage = (s.broker.usage_for_run pack.run_id).2 ∧ row.reply.charge = none := by
      cases htakes with
      | make _ _ _ hmeter _ huncharged hrun => exact ⟨hrun, hmeter, huncharged⟩
    have hnone : ({ call with stage := .writing row } : Call).pending = none := huncharged
    refine .make i call pack hevent hcall hrun hmeter hpacks hmade husages (fun weight => ?_)
      (mem_of_modify hcall hnone hcalls) hforfeits
    have hmoved := standing_modify weight hcall hanswers hforfeits hcalls
    rw [Call.weigh_of_none weight hpending, Call.weigh_of_none weight hnone] at hmoved
    exact hmoved
  | charge hanswers i call charge cards recorded row pack charged hevent hcall hpending haction htakes hpack hkept
      hused hpacks hmade husages hstore snapshot hsnapshot hcalls hforfeits =>
    have hcharged : ({ call with stage := .writing { row with lock := some charge.pack, refund := some snapshot } } :
        Call).pending = some charge := htakes.charge_reply
    refine .charge i call _ charge cards recorded row pack charged hevent hcall htakes hpack hkept hused hpacks hmade
      husages (fun weight => ?_) hcharged (congrArg some hsnapshot) hcalls hforfeits
    have hmoved := standing_modify weight hcall hanswers hforfeits hcalls
    rw [Call.weigh_of_none weight hpending, Call.weigh_of_some weight hcharged] at hmoved
    exact hmoved
  | finish hsame i call row answer hcall hstage hsubject hreply hanswers hcalls hforfeits =>
    refine .keep hsame.packs hsame.usages hsame.made_with (fun weight => ?_) (mem_of_modify hcall rfl hcalls)
      (.inl hforfeits)
    have hmoved := pending_modify weight hcall hcalls
    have hanswer : answer.weigh weight = call.weigh weight := by
      rw [Answer.weigh, Call.weigh, Call.pending, hstage, hsubject, hreply]
    rw [Call.weigh_of_none weight (rfl : ({ call with stage := .done } : Call).pending = none)] at hmoved
    simp only [Server.standing, Server.answered, Server.forfeited, hanswers, hforfeits, List.map_append, List.sum_append,
      List.map_singleton, List.sum_singleton, hanswer]
    omega
  | refund hanswers i landed call row charge snapshot pack restored stage hevent hcall hstage hcharge hrefund hpack
      hkept hused hpacks hmade husages hstore hfree hcalls hforfeits =>
    have hpending : call.pending = some charge := by
      rw [Call.pending, hstage]
      exact hcharge
    have hsnapshot : call.refund = some snapshot := by
      rw [Call.refund, hstage]
      exact hrefund
    have hnone : ({ call with stage } : Call).pending = none := Stage.pending_of_uncharged hfree.uncharged
    refine .refund i landed call stage charge snapshot pack restored hevent hcall hpending
      hsnapshot hpack hkept hused hpacks hmade husages (fun weight => ?_) hnone hcalls hforfeits
    have hmoved := standing_modify weight hcall hanswers hforfeits hcalls
    rw [Call.weigh_of_some weight hpending, Call.weigh_of_none weight hnone] at hmoved
    exact hmoved
  | forfeit hsame hanswers i landed call charge hevent hcall hpending hcalls hforfeits =>
    refine .keep hsame.packs hsame.usages hsame.made_with (fun weight => ?_) (mem_of_modify hcall rfl hcalls)
      (.inr ⟨i, landed, call, charge, hevent, hcall, hpending, hforfeits⟩)
    have hmoved := pending_modify weight hcall hcalls
    rw [Call.weigh_of_some weight hpending,
      Call.weigh_of_none weight (rfl : ({ call with stage := .done } : Call).pending = none)] at hmoved
    simp only [Server.standing, Server.answered, Server.forfeited, hanswers, hforfeits, List.map_append, List.sum_append,
      List.map_singleton, List.sum_singleton]
    omega

end Booking

section Readings

variable {s s' : Server} {weight weight' : String → Charge → Nat} {packs : List PackState} {pack pack' : PackState}
  {chosen : PackState → Bool} {subject payer : String} {measure : Charge → Nat} {charge : Charge} {ref : Ref}

/-- All charges that stand are on packs that exist. -/
theorem standing_congr (hcon : Consistent s)
    (h : ∀ subject charge, charge.pack < s.packs.length → weight subject charge = weight' subject charge) :
    s.standing weight = s.standing weight' := by
  have hanswered : s.answered weight = s.answered weight' := by
    refine congrArg List.sum (List.map_congr_left fun answer hanswer => ?_)
    cases hcharge : answer.reply.charge with
    | none => simp only [Answer.weigh, hcharge, Option.elim_none]
    | some charge => simp only [Answer.weigh, hcharge, Option.elim_some, h _ charge (hcon.answered answer hanswer charge hcharge)]
  have hpending : s.pending weight = s.pending weight' := by
    refine congrArg List.sum (List.map_congr_left fun call hcall => ?_)
    cases hcharge : call.pending with
    | none => simp only [Call.weigh, hcharge, Option.elim_none]
    | some charge => simp only [Call.weigh, hcharge, Option.elim_some, h _ charge (hcon.backed call hcall charge hcharge).1]
  have hforfeited : s.forfeited weight = s.forfeited weight' :=
    congrArg List.sum (List.map_congr_left fun forfeit hforfeit => h _ _ (hcon.forfeited forfeit hforfeit))
  rw [Server.standing, Server.standing, hanswered, hpending, hforfeited]

theorem through_of_pack (hpack : packs[charge.pack]? = some pack) :
    through packs chosen subject measure payer charge =
      if payer = subject ∧ chosen pack = true then measure charge else 0 := by
  rw [through, hpack, Option.any_some]

/-- A pack changes, but not whether it is one of the chosen. -/
theorem through_set (hpack : packs[ref]? = some pack) (hchosen : chosen pack' = chosen pack) :
    through (packs.set ref pack') chosen subject measure = through packs chosen subject measure := by
  funext payer charge
  have hany : ((packs.set ref pack')[charge.pack]?).any chosen = (packs[charge.pack]?).any chosen := by
    by_cases heq : charge.pack = ref
    · rw [heq, hpack, List.getElem?_set_self (List.getElem?_eq_some_iff.1 hpack).1, Option.any_some, Option.any_some,
        hchosen]
    · rw [List.getElem?_set_ne (Ne.symm heq)]
  rw [through, through, hany]

theorem standing_mono (h : ∀ subject charge, weight subject charge ≤ weight' subject charge) :
    s.standing weight ≤ s.standing weight' := by
  have hanswered : s.answered weight ≤ s.answered weight' := by
    refine List.sum_le_sum fun answer _ => ?_
    unfold Answer.weigh
    cases answer.reply.charge with
    | none => exact le_refl 0
    | some charge => exact h _ _
  have hpending : s.pending weight ≤ s.pending weight' := by
    refine List.sum_le_sum fun call _ => ?_
    unfold Call.weigh
    cases call.pending with
    | none => exact le_refl 0
    | some charge => exact h _ _
  have hforfeited : s.forfeited weight ≤ s.forfeited weight' := List.sum_le_sum fun forfeit _ => h _ _
  simp only [Server.standing]
  omega

theorem standing_eq_zero (hcon : Consistent s)
    (h : ∀ subject charge, charge.pack < s.packs.length → weight subject charge = 0) : s.standing weight = 0 := by
  rw [show s.standing weight = s.standing (fun _ _ => 0) from standing_congr hcon h]
  have hanswer : ∀ answer : Answer, answer.weigh (fun _ _ => 0) = 0 := by
    intro answer
    unfold Answer.weigh
    cases answer.reply.charge with
    | none => rfl
    | some charge => rfl
  have hcall : ∀ call : Call, call.weigh (fun _ _ => 0) = 0 := by
    intro call
    unfold Call.weigh
    cases call.pending with
    | none => rfl
    | some charge => rfl
  simp only [Server.standing, Server.answered, Server.pending, Server.forfeited, funext hanswer, funext hcall,
    List.map_const', List.sum_replicate_nat, Nat.mul_zero]

/-- No charge that stands is on a pack that is only made now. -/
theorem charged_concat (hcon : Consistent s) (hstanding : ∀ weight, s'.standing weight = s.standing weight)
    (hpacks : s'.packs = s.packs ++ [pack]) : s'.charged chosen subject = s.charged chosen subject := by
  have hsame : ∀ measure : Charge → Nat, s'.standing (through s'.packs chosen subject measure) =
      s.standing (through s.packs chosen subject measure) := by
    intro measure
    rw [hstanding, hpacks]
    refine standing_congr hcon fun payer charge hlt => ?_
    rw [through, through, List.getElem?_append_left hlt]
  rw [Server.charged, Server.charged, hsame, hsame]

/-- One more charge stands. -/
theorem charged_add (subject : String) (hpack : s.packs[charge.pack]? = some pack) (hpacks : s'.packs = s.packs.set charge.pack pack')
    (hchosen : chosen pack' = chosen pack)
    (hstanding : ∀ weight, s'.standing weight = s.standing weight + weight payer charge) :
    s'.charged chosen subject =
      if payer = subject ∧ chosen pack = true then (s.charged chosen subject).add charge.requests charge.tokens
      else s.charged chosen subject := by
  simp only [Server.charged, hpacks, through_set hpack hchosen, hstanding, through_of_pack hpack]
  by_cases hpays : payer = subject ∧ chosen pack = true
  · simp only [if_pos hpays]
    rfl
  · simp only [if_neg hpays]
    rfl

/-- One charge stands no more. -/
theorem charged_sub (subject : String) (hpack : s.packs[charge.pack]? = some pack) (hpacks : s'.packs = s.packs.set charge.pack pack')
    (hchosen : chosen pack' = chosen pack)
    (hstanding : ∀ weight, s'.standing weight + weight payer charge = s.standing weight) :
    s.charged chosen subject =
      if payer = subject ∧ chosen pack = true then (s'.charged chosen subject).add charge.requests charge.tokens
      else s'.charged chosen subject := by
  simp only [Server.charged, hpacks, through_set hpack hchosen, ← hstanding, through_of_pack hpack]
  by_cases hpays : payer = subject ∧ chosen pack = true
  · simp only [if_pos hpays]
    rfl
  · simp only [if_neg hpays]
    rfl

/-- One agent's count on one meter is overwritten. -/
theorem reading_modify {usage : Ref} {subject : String} {level : AgentUsage} (hlt : usage < s.usages.length)
    (husages : s'.usages = s.usages.modify usage fun usages => usages.set subject level) (usage' : Ref)
    (subject' : String) :
    s'.reading usage' subject' = if usage' = usage ∧ subject' = subject then level else s.reading usage' subject' := by
  simp only [Server.reading, husages]
  by_cases husage : usage' = usage
  · subst husage
    rw [List.getElem?_modify_eq, List.getElem?_eq_getElem hlt]
    simp only [Option.map_eq_map, Option.map_some, Option.bind_some, Dict.get?_set, true_and]
    by_cases hsubject : subject' = subject
    · rw [if_pos hsubject, if_pos hsubject, Option.getD_some]
    · rw [if_neg hsubject, if_neg hsubject]
  · rw [List.getElem?_modify_ne _ _ (Ne.symm husage), if_neg fun h => husage h.1]

/-- One agent's count on a pack's meter is overwritten, and a sum moves by a charge where it is read through this meter
for this agent: either both happen, or neither. -/
private theorem counts_cases (hcon : Consistent s) (hpack : s.packs[charge.pack]? = some pack) {level : AgentUsage}
    (husages : s'.usages = s.usages.modify pack.agent_usage fun usages => usages.set payer level) {usage : Ref}
    {subject : String} {more less : AgentUsage}
    (hsum : more = if payer = subject ∧ metered_by usage pack = true then less.add charge.requests charge.tokens else less) :
    (usage = pack.agent_usage ∧ subject = payer ∧ s'.reading usage subject = level ∧
        more = less.add charge.requests charge.tokens) ∨
      (s'.reading usage subject = s.reading usage subject ∧ more = less) := by
  have hreading := reading_modify (hcon.meter pack (List.mem_of_getElem? hpack)) husages usage subject
  by_cases hpays : usage = pack.agent_usage ∧ subject = payer
  · rw [if_pos ⟨hpays.2.symm, metered_by_iff.2 hpays.1⟩] at hsum
    rw [if_pos hpays] at hreading
    exact .inl ⟨hpays.1, hpays.2, hreading, hsum⟩
  · rw [if_neg fun h => hpays ⟨metered_by_iff.1 h.2, h.1.symm⟩] at hsum
    rw [if_neg hpays] at hreading
    exact .inr ⟨hreading, hsum⟩

theorem SamePack.metered_by (hkept : SamePack pack pack') (usage : Ref) :
    metered_by usage pack' = metered_by usage pack := by
  rw [ContextBroker.metered_by, ContextBroker.metered_by, hkept.agent_usage]

/-- A charge is taken: its payer's count on the pack's meter is overwritten, the charges through this meter are one
more, and every other count and sum is as it was. -/
theorem counts_add (hcon : Consistent s) (hpack : s.packs[charge.pack]? = some pack) (hkept : SamePack pack pack')
    (hpacks : s'.packs = s.packs.set charge.pack pack') {level : AgentUsage}
    (husages : s'.usages = s.usages.modify pack.agent_usage fun usages => usages.set payer level)
    (hstanding : ∀ weight, s'.standing weight = s.standing weight + weight payer charge) (usage : Ref) (subject : String) :
    (usage = pack.agent_usage ∧ subject = payer ∧ s'.reading usage subject = level ∧
        s'.charged (metered_by usage) subject =
          (s.charged (metered_by usage) subject).add charge.requests charge.tokens) ∨
      (s'.reading usage subject = s.reading usage subject ∧
        s'.charged (metered_by usage) subject = s.charged (metered_by usage) subject) :=
  counts_cases hcon hpack husages (charged_add subject hpack hpacks (hkept.metered_by usage) hstanding)

/-- A charge is given back: the same, with one charge less. -/
theorem counts_sub (hcon : Consistent s) (hpack : s.packs[charge.pack]? = some pack) (hkept : SamePack pack pack')
    (hpacks : s'.packs = s.packs.set charge.pack pack') {level : AgentUsage}
    (husages : s'.usages = s.usages.modify pack.agent_usage fun usages => usages.set payer level)
    (hstanding : ∀ weight, s'.standing weight + weight payer charge = s.standing weight) (usage : Ref) (subject : String) :
    (usage = pack.agent_usage ∧ subject = payer ∧ s'.reading usage subject = level ∧
        s.charged (metered_by usage) subject =
          (s'.charged (metered_by usage) subject).add charge.requests charge.tokens) ∨
      (s'.reading usage subject = s.reading usage subject ∧
        s'.charged (metered_by usage) subject = s.charged (metered_by usage) subject) :=
  (counts_cases hcon hpack husages (charged_sub subject hpack hpacks (hkept.metered_by usage) hstanding)).imp_right
    fun hother => ⟨hother.1, hother.2.symm⟩

/-- A new meter reads zero. -/
theorem reading_usage_for_run {run_id : String} (husages : s'.usages = (s.broker.usage_for_run run_id).1.usages)
    (usage : Ref) (subject : String) : s'.reading usage subject = s.reading usage subject := by
  rw [Server.reading, husages]
  cases usage_for_run_cases s.broker run_id with
  | inl hold =>
    obtain ⟨_, -, heq⟩ := hold
    rw [heq]
    rfl
  | inr hnew =>
    rw [hnew.2.1, Server.reading]
    by_cases hlt : usage < s.usages.length
    · rw [List.getElem?_append_left (show usage < s.broker.usages.length from hlt)]
      rfl
    · have hnone : s.usages[usage]? = none := List.getElem?_eq_none (Nat.le_of_not_lt hlt)
      rw [hnone]
      cases hget : (s.broker.usages ++ [[]])[usage]? with
      | none => rfl
      | some usages =>
        cases getElem?_concat_cases hget with
        | inl heq =>
          rw [heq.2]
          rfl
        | inr hold => exact absurd (List.getElem?_eq_some_iff.1 hold).1 hlt

end Readings

end AgenticKb.ContextBroker

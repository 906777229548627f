import AgenticKb.Properties.CallSteps
import AgenticKb.Properties.Metering

open AgenticKb.Lib

namespace AgenticKb.ContextBroker

/-- The packs and the meters are the same, and no run has a meter it did not have. -/
structure SameMeters (s s' : Server) : Prop where
  packs : s'.packs = s.packs
  usages : s'.usages = s.usages
  made_with : s'.made_with = s.made_with
  run_usage : ∀ run usage, s'.store.run_usage.get? run = some usage → s.store.run_usage.get? run = some usage

/-- The calls and what has become of them are the same. -/
structure SameCalls (s s' : Server) : Prop where
  calls : s'.calls = s.calls
  answers : s'.answers = s.answers
  forfeits : s'.forfeits = s.forfeits

/-- The pack is of the same run, with the same meter and budget. -/
structure SamePack (pack pack' : PackState) : Prop where
  run_id : pack'.run_id = pack.run_id
  agent_usage : pack'.agent_usage = pack.agent_usage
  budget_tokens : pack'.budget_tokens = pack.budget_tokens

/-- What one step can do to the packs, the meters, the calls and their answers. -/
inductive Effect (deps : ServerDeps) (event : Event) (s s' : Server) : Prop
  /-- Nothing, but for an answer that charges nothing. -/
  | quiet (hsame : SameMeters s s') (hcalls : s'.calls = s.calls) (answers : List Answer)
      (hanswers : s'.answers = s.answers ++ answers) (huncharged : ∀ answer ∈ answers, answer.reply.charge = none)
      (hforfeits : s'.forfeits = s.forfeits)
  /-- A call comes in. -/
  | arrive (hsame : SameMeters s s') (hanswers : s'.answers = s.answers) (call : Call) (hfree : call.stage.Free)
      (hcalls : s'.calls = s.calls ++ [call]) (hforfeits : s'.forfeits = s.forfeits)
  /-- A call that has charged nothing goes on. -/
  | move (hsame : SameMeters s s') (hanswers : s'.answers = s.answers) (i : Nat) (call : Call) (stage : Stage)
      (hcall : s.calls[i]? = some call) (hpending : call.pending = none) (htakes : Takes deps s call (.await stage))
      (hcalls : s'.calls = s.calls.modify i fun call => { call with stage }) (hforfeits : s'.forfeits = s.forfeits)
  /-- A pack is made. -/
  | make (hanswers : s'.answers = s.answers) (i : Nat) (call : Call) (pack : PackState) (row : Writing)
      (hevent : event = .resume i) (hcall : s.calls[i]? = some call) (hpending : call.pending = none)
      (haction : resume_call deps s call = some (.make pack row)) (htakes : Takes deps s call (.make pack row))
      (hpacks : s'.packs = s.packs ++ [pack]) (hmade : s'.made_with = s.made_with ++ [pack.used_run_tokens])
      (husages : s'.usages = (s.broker.usage_for_run pack.run_id).1.usages)
      (hstore : s'.store = (s.broker.usage_for_run pack.run_id).1.store)
      (hcalls : s'.calls = s.calls.modify i fun call => { call with stage := .writing row })
      (hforfeits : s'.forfeits = s.forfeits)
  /-- A call takes its charge. -/
  | charge (hanswers : s'.answers = s.answers) (i : Nat) (call : Call) (charge : Charge)
      (cards : List EvidenceCard) (recorded : Option PastRetrieval) (row : Writing) (state charged : PackState)
      (hevent : event = .resume i) (hcall : s.calls[i]? = some call) (hpending : call.pending = none)
      (haction : resume_call deps s call = some (.charge charge cards recorded row))
      (htakes : Takes deps s call (.charge charge cards recorded row)) (hpack : s.packs[charge.pack]? = some state)
      (hkept : SamePack state charged) (hused : charged.used_run_tokens = state.used_run_tokens + charge.tokens)
      (hpacks : s'.packs = s.packs.set charge.pack charged) (hmade : s'.made_with = s.made_with)
      (husages : s'.usages = s.usages.modify state.agent_usage fun usages => usages.set call.requester.subject
        ((s.usage_for state call.requester.subject).add charge.requests charge.tokens))
      (hstore : ∀ run usage, s'.store.run_usage.get? run = some usage → s.store.run_usage.get? run = some usage)
      (snapshot : PackSnapshot) (hsnapshot : snapshot = s.snapshot state call.requester.subject)
      (hcalls : s'.calls = s.calls.modify i fun call =>
        { call with stage := .writing { row with lock := some charge.pack, refund := some snapshot } })
      (hforfeits : s'.forfeits = s.forfeits)
  /-- A call returns. -/
  | finish (hsame : SameMeters s s') (i : Nat) (call : Call) (row : Writing) (answer : Answer)
      (hcall : s.calls[i]? = some call) (hstage : call.stage = .writing row)
      (hsubject : answer.subject = call.requester.subject) (hreply : answer.reply = row.reply)
      (hanswers : s'.answers = s.answers ++ [answer])
      (hcalls : s'.calls = s.calls.modify i fun call => { call with stage := .done })
      (hforfeits : s'.forfeits = s.forfeits)
  /-- A call that has charged raises: its charge is given back. -/
  | refund (hanswers : s'.answers = s.answers) (i : Nat) (landed : Bool) (call : Call) (row : Writing)
      (charge : Charge) (snapshot : PackSnapshot) (state restored : PackState) (stage : Stage)
      (hevent : event = .fail i landed) (hcall : s.calls[i]? = some call) (hstage : call.stage = .writing row)
      (hcharge : row.reply.charge = some charge) (hrefund : row.refund = some snapshot)
      (hpack : s.packs[charge.pack]? = some state)
      (hkept : SamePack state restored) (hused : restored.used_run_tokens = snapshot.used_run_tokens)
      (hpacks : s'.packs = s.packs.set charge.pack restored) (hmade : s'.made_with = s.made_with)
      (husages : s'.usages = s.usages.modify state.agent_usage fun usages => usages.set call.requester.subject
        { requests := snapshot.agent_requests, tokens := snapshot.agent_tokens })
      (hstore : ∀ run usage, s'.store.run_usage.get? run = some usage → s.store.run_usage.get? run = some usage)
      (hfree : stage.Free)
      (hcalls : s'.calls = s.calls.modify i fun call => { call with stage }) (hforfeits : s'.forfeits = s.forfeits)
  /-- A call that has charged is cancelled. -/
  | forfeit (hsame : SameMeters s s') (hanswers : s'.answers = s.answers) (i : Nat) (landed : Bool) (call : Call)
      (charge : Charge) (hevent : event = .cancel i landed) (hcall : s.calls[i]? = some call)
      (hpending : call.pending = some charge)
      (hcalls : s'.calls = s.calls.modify i fun call => { call with stage := .done })
      (hforfeits : s'.forfeits = s.forfeits ++ [(call.requester.subject, charge)])

/-- What a call would give back if it failed now. -/
def Call.refund (call : Call) : Option PackSnapshot :=
  match call.stage with
  | .writing row => row.refund
  | _ => none

/-- Every reference stands for an object, no pack is locked twice, and a call that has charged a pack
holds its lock and knows what to give back. -/
structure Consistent (s : Server) : Prop where
  exclusive : Exclusive (fun call : Call => call.stage.holds) s.calls
  backed : ∀ call ∈ s.calls, ∀ charge ∈ call.pending,
    charge.pack < s.packs.length ∧ call.stage.holds = some charge.pack ∧ call.refund.isSome
  answered : ∀ answer ∈ s.answers, ∀ charge ∈ answer.reply.charge, charge.pack < s.packs.length
  forfeited : ∀ forfeit ∈ s.forfeits, forfeit.2.pack < s.packs.length
  meter : ∀ pack ∈ s.packs, pack.agent_usage < s.usages.length
  registered : ∀ run usage, s.store.run_usage.get? run = some usage → usage < s.usages.length
  made : s.made_with.length = s.packs.length

theorem consistent_start (db : Database) : Consistent (.start db) :=
  ⟨exclusive_nil, by simp [Server.start], by simp [Server.start], by simp [Server.start], by simp [Server.start],
    by simp [Server.start, Dict.get?], rfl⟩

section Step

variable {deps : ServerDeps} {s : Server} {event : Event}

theorem SameMeters.refl (s : Server) : SameMeters s s := ⟨rfl, rfl, rfl, fun _ _ h => h⟩

theorem sameMeters_look_up (id : Option String) : SameMeters s (s.look_up id) := by
  unfold Server.look_up
  cases id with
  | none => exact .refl s
  | some id =>
    refine ⟨rfl, rfl, rfl, fun run usage h => ?_⟩
    rwa [show s.store.run_usage = (s.broker.get id).1.store.run_usage from (get_frame s.broker id).2.2.1.symm]

theorem SameCalls.refl (s : Server) : SameCalls s s := ⟨rfl, rfl, rfl⟩

theorem SameCalls.trans {s₁ s₂ : Server} (h : SameCalls s s₁) (h' : SameCalls s₁ s₂) : SameCalls s s₂ :=
  ⟨h'.calls.trans h.calls, h'.answers.trans h.answers, h'.forfeits.trans h.forfeits⟩

theorem sameCalls_look_up (id : Option String) : SameCalls s (s.look_up id) := by
  unfold Server.look_up
  cases id with
  | none => exact .refl s
  | some id => exact ⟨rfl, rfl, rfl⟩

/-- Nothing happens to the meters and the calls. -/
theorem Effect.of_same {s' : Server} (hsame : SameMeters s s') (hcalls : SameCalls s s') : Effect deps event s s' := by
  refine .quiet hsame hcalls.calls [] ?_ (by simp) hcalls.forfeits
  rw [hcalls.answers, List.append_nil]

theorem Stage.Free.takes {stage : Stage} (h : stage.Free) (call : Call) : Takes deps s call (.await stage) := by
  refine .await stage h.uncharged ?_ ?_
  · intro pack hpack
    rw [h.holds] at hpack
    simp at hpack
  · intro pack tokens hasks
    rw [h.asks] at hasks
    simp at hasks

theorem free_done : Stage.Free .done := ⟨by simp, rfl, rfl⟩

theorem free_unexpected_error (requester : Requester) (tool_name : String) :
    Stage.Free (.writing (unexpected_error requester tool_name)) := by
  refine ⟨?_, rfl, rfl⟩
  intro row h
  rw [Stage.writing.injEq] at h
  exact h ▸ rfl

theorem run_tool_uncharged (db : Database) (windows : Dict (String × String) AgentUsage) (requester : Requester)
    (tool : Tool) : (run_tool deps db windows requester tool).reply.charge = none := by
  have hserved : ∀ (tool_name text : String) (serve : ActiveVersion → ToolRun),
      (∀ active, (serve active).reply.charge = none) →
        (served_run db windows requester tool_name text serve).reply.charge = none := by
    intro tool_name text serve hserve
    unfold served_run
    split
    · rfl
    · exact hserve _
  cases tool with
  | get_neighbors request => exact hserved _ _ _ fun _ => rfl
  | kb_search query session_key =>
    apply hserved
    intro active
    unfold kb_search
    dsimp only
    split <;> rfl
  | get_task_context task_description => exact hserved _ _ _ fun _ => rfl
  | verify_answer request client_id =>
    simp only [run_tool, verify_answer_run]
    cases (verify_answer deps.toVerifierDeps db request requester client_id).1 with
    | error message => rfl
    | ok receipt => rfl
  | create_change_pack run_id query =>
    simp only [run_tool, create_change_pack_run]
    split <;> rfl
  | list_retrievals run_id => rfl
  | get_review_draft repo pr_number => rfl

theorem effect_begin (requester : Requester) (request : Request) :
    Effect deps event s (s.begin requester request) := by
  obtain ⟨s₁, hs₁, hsame, hcalls⟩ : ∃ s₁ : Server, s.begin requester request =
      { s₁ with calls := s₁.calls ++ [⟨requester, request.tool_name, .done⟩] : Server }.perform s₁.calls.length
        ⟨requester, request.tool_name, .done⟩ (begin_call s requester request) ∧ SameMeters s s₁ ∧ SameCalls s s₁ := by
    cases request with
    | create_pack request id => exact ⟨s, rfl, .refl s, .refl s⟩
    | expand request => exact ⟨s, rfl, .refl s, .refl s⟩
    | read_pack id => exact ⟨_, rfl, sameMeters_look_up _, sameCalls_look_up _⟩
    | request_more request => exact ⟨_, rfl, sameMeters_look_up _, sameCalls_look_up _⟩
    | open_evidence request => exact ⟨_, rfl, sameMeters_look_up _, sameCalls_look_up _⟩
  rw [hs₁]
  have harrive : ∀ stage : Stage, stage.Free → Effect deps event s
      ({ s₁ with calls := s₁.calls ++ [⟨requester, request.tool_name, .done⟩] : Server }.set_stage s₁.calls.length
        stage) := by
    intro stage hfree
    refine .arrive ⟨hsame.packs, hsame.usages, hsame.made_with, hsame.run_usage⟩ hcalls.answers
      ⟨requester, request.tool_name, stage⟩ hfree ?_ hcalls.forfeits
    simp only [Server.set_stage]
    rw [modify_concat_length, hcalls.calls]
  cases free_begin_call s requester request with
  | inl hraise =>
    rw [hraise]
    exact harrive _ (free_unexpected_error _ _)
  | inr hawait =>
    obtain ⟨stage, hstage, hfree⟩ := hawait
    rw [hstage]
    exact harrive stage hfree

theorem expand_active_awaits (deps : ServerDeps) (s : Server) (requester : Requester) (request : ExpandRequest) :
    ∃ stage, expand_active deps s requester request = .await stage := by
  unfold expand_active
  split
  · exact ⟨_, rfl⟩
  · dsimp only
    split
    · exact ⟨_, rfl⟩
    · exact ⟨_, rfl⟩

theorem pending_of_resume_call {call : Call} {action : Action} (h : resume_call deps s call = some action) :
    call.pending = none := by
  unfold Call.pending
  cases hstage : call.stage with
  | writing row => simp [resume_call, hstage] at h
  | _ => rfl

/-- A call that goes on without a charge. -/
private theorem effect_move {s₁ : Server} {i : Nat} {call : Call} {stage : Stage} (hsame : SameMeters s s₁)
    (hcalls : SameCalls s s₁) (hcall : s.calls[i]? = some call) (hpending : call.pending = none)
    (htakes : Takes deps s call (.await stage)) : Effect deps event s (s₁.set_stage i stage) := by
  refine .move ⟨hsame.packs, hsame.usages, hsame.made_with, hsame.run_usage⟩ hcalls.answers i call stage hcall hpending
    htakes ?_ hcalls.forfeits
  simp only [Server.set_stage, hcalls.calls]

theorem effect_perform {i : Nat} {call : Call} {action : Action} (hcall : s.calls[i]? = some call)
    (haction : resume_call deps s call = some action) (hevent : event = .resume i) :
    Effect deps event s (s.perform i call action) := by
  have htakes := takes_resume_call haction
  have hpending := pending_of_resume_call haction
  cases action with
  | await stage => exact effect_move (.refl s) (.refl s) hcall hpending htakes
  | raise => exact effect_move (.refl s) (.refl s) hcall hpending ((free_unexpected_error _ _).takes call)
  | make pack row => exact .make rfl i call pack row hevent hcall hpending haction htakes rfl rfl rfl rfl rfl rfl
  | charge charge cards recorded row =>
    have hpack : ∃ state, s.packs[charge.pack]? = some state := by
      cases htakes with
      | more _ _ _ _ _ _ _ _ hpack _ => exact hpack
      | opened _ _ _ _ state _ hpack _ _ _ _ => exact ⟨state, hpack⟩
      | expanded _ _ _ _ _ _ state _ _ hpack _ _ _ => exact ⟨state, hpack⟩
    obtain ⟨state, hstate⟩ := hpack
    obtain ⟨charged, hcharged⟩ : ∃ charged : PackState, charged =
        { state with
          used_run_tokens := state.used_run_tokens + charge.tokens
          cards := cards.foldl (fun d card => d.set card.evidence_id card) state.cards
          history := state.history ++ recorded.toList } := ⟨_, rfl⟩
    have hperform : s.perform i call (.charge charge cards recorded row) =
        { s.set_usage state call.requester.subject
            ((s.usage_for state call.requester.subject).add charge.requests charge.tokens) with
          packs := s.packs.set charge.pack charged : Server }.set_stage i (.writing
          { row with
            lock := some charge.pack
            refund := some (s.snapshot state call.requester.subject) }) := by
      simp only [Server.perform, Server.charge, hstate, Option.map_some, hcharged]
    rw [hperform]
    exact .charge rfl i call charge cards recorded row state charged hevent hcall hpending haction htakes hstate
      (by rw [hcharged]; exact ⟨rfl, rfl, rfl⟩) (by rw [hcharged]) rfl rfl rfl (fun _ _ h => h) _ rfl rfl rfl

theorem SameMeters.trans {s₁ s₂ : Server} (h : SameMeters s s₁) (h' : SameMeters s₁ s₂) : SameMeters s s₂ :=
  ⟨h'.packs.trans h.packs, h'.usages.trans h.usages, h'.made_with.trans h.made_with,
    fun run usage hget => h.run_usage run usage (h'.run_usage run usage hget)⟩

theorem same_store_pack (s : Server) (ref : Ref) : SameMeters s (s.store_pack ref) ∧ SameCalls s (s.store_pack ref) := by
  unfold Server.store_pack
  split
  · rename_i pack hpack
    refine ⟨⟨rfl, rfl, rfl, ?_⟩, ⟨rfl, rfl, rfl⟩⟩
    intro run usage h
    obtain ⟨packs, run_usage, heq, -, hget⟩ := create_spec s.broker ref pack.context_pack_id
    rw [heq] at h
    dsimp only at h
    rw [hget] at h
    split at h
    · simp at h
    · exact h
  · exact ⟨.refl s, .refl s⟩

theorem effect_finish {s₁ : Server} {i : Nat} {call : Call} {row : Writing} (hsame : SameMeters s s₁)
    (hcalls : SameCalls s s₁) (hcall : s.calls[i]? = some call) (hstage : call.stage = .writing row) :
    Effect deps event s (s₁.finish i call row) := by
  obtain ⟨s₂, hs₂, hsame₂, hcalls₂⟩ : ∃ s₂ : Server, row.stores.elim s₁ s₁.store_pack = s₂ ∧
      SameMeters s s₂ ∧ SameCalls s s₂ := by
    cases row.stores with
    | none => exact ⟨s₁, rfl, hsame, hcalls⟩
    | some ref =>
      obtain ⟨hstored, hstored_calls⟩ := same_store_pack s₁ ref
      exact ⟨_, rfl, hsame.trans hstored, hcalls.trans hstored_calls⟩
  unfold Server.finish
  rw [hs₂]
  refine .finish ⟨hsame₂.packs, hsame₂.usages, hsame₂.made_with, hsame₂.run_usage⟩ i call row
    { subject := call.requester.subject
      kb_version := row.event.kb_version
      reply := row.reply
      budget_remaining_tokens := row.reply.pack.bind fun ref => (s₂.packs[ref]?).map (·.run_remaining_tokens) }
    hcall hstage rfl rfl ?_ ?_ hcalls₂.forfeits
  · simp only [Server.set_stage, hcalls₂.answers]
  · simp only [Server.set_stage, hcalls₂.calls]

theorem effect_resume {i : Nat} {call : Call} (hcall : s.calls[i]? = some call) (hevent : event = .resume i) :
    Effect deps event s (s.resume deps i call) := by
  have hgoes : Effect deps event s (s.go_on i call (resume_call deps s call)) := by
    cases haction : resume_call deps s call with
    | none => exact .of_same (.refl s) (.refl s)
    | some action =>
      by_cases hactive : ∃ request, call.stage = .expand_active request
      · obtain ⟨request, hstage⟩ := hactive
        have htakes := takes_resume_call haction
        simp only [resume_call, hstage, Option.some.injEq] at haction
        obtain ⟨stage, hawait⟩ := expand_active_awaits deps s call.requester request
        rw [← haction, hawait] at htakes ⊢
        exact effect_move (sameMeters_look_up _) (sameCalls_look_up _) hcall (by simp [Call.pending, hstage]) htakes
      · have hnone : call.looks_up s.db = none := by
          unfold Call.looks_up
          split
          · rename_i request hstage
            exact absurd ⟨request, hstage⟩ hactive
          · rfl
        rw [Server.go_on, hnone]
        exact effect_perform hcall haction hevent
  unfold Server.resume
  cases hstage : call.stage with
  | writing row => exact effect_finish ⟨rfl, rfl, rfl, fun _ _ h => h⟩ ⟨rfl, rfl, rfl⟩ hcall hstage
  | _ => exact hgoes

/-- A call that has nothing to give back ends or turns to its error row. -/
private theorem effect_leave {s₁ : Server} {i : Nat} {call : Call} {stage : Stage} (hsame : SameMeters s s₁)
    (hcalls : SameCalls s s₁) (hcall : s.calls[i]? = some call) (hpending : call.pending = none) (hfree : stage.Free) :
    Effect deps event s (s₁.set_stage i stage) :=
  effect_move hsame hcalls hcall hpending (hfree.takes call)

theorem same_insert_event (s : Server) (landed : Bool) (row : RetrievalEventInsert) :
    SameMeters s (if landed then s.insert_event row else s) ∧ SameCalls s (if landed then s.insert_event row else s) := by
  cases landed with
  | false => exact ⟨.refl s, .refl s⟩
  | true => exact ⟨⟨rfl, rfl, rfl, fun _ _ h => h⟩, ⟨rfl, rfl, rfl⟩⟩

theorem effect_cancel {i : Nat} {call : Call} {landed : Bool} (hcall : s.calls[i]? = some call)
    (hevent : event = .cancel i landed) : Effect deps event s (s.cancel i call landed) := by
  unfold Server.cancel
  split
  · rename_i row hstage
    have hpending : call.pending = row.reply.charge := by rw [Call.pending, hstage]
    obtain ⟨hsame, hcalls⟩ := same_insert_event s landed row.event
    dsimp only
    generalize (if landed then s.insert_event row.event else s) = s₁ at hsame hcalls
    cases hcharge : row.reply.charge with
    | none =>
      refine effect_leave ⟨hsame.packs, hsame.usages, hsame.made_with, hsame.run_usage⟩
        ⟨hcalls.calls, hcalls.answers, ?_⟩ hcall (hpending.trans hcharge) free_done
      rw [Option.map_none, Option.toList_none, List.append_nil, hcalls.forfeits]
    | some charge =>
      refine .forfeit ⟨hsame.packs, hsame.usages, hsame.made_with, hsame.run_usage⟩ hcalls.answers i landed call charge
        hevent hcall (hpending.trans hcharge) ?_ ?_
      · simp only [Server.set_stage, hcalls.calls]
      · simp only [Server.set_stage, hcalls.forfeits, Option.map_some, Option.toList_some]
  · rename_i hwriting
    refine effect_leave (.refl s) (.refl s) hcall ?_ free_done
    unfold Call.pending
    split
    · rename_i row hstage
      exact absurd hstage (hwriting row)
    · rfl

theorem effect_fail (hcon : Consistent s) {i : Nat} {call : Call} {landed : Bool} (hcall : s.calls[i]? = some call)
    (hevent : event = .fail i landed) : Effect deps event s (s.fail i call landed) := by
  have hleave : ∀ stage : Stage, call.pending = none → stage.Free → Effect deps event s (s.set_stage i stage) :=
    fun stage => effect_leave (.refl s) (.refl s) hcall
  unfold Server.fail
  split
  · rename_i row hstage
    have hpending : call.pending = row.reply.charge := by rw [Call.pending, hstage]
    obtain ⟨hsame, hcalls⟩ := same_insert_event s landed row.event
    -- the call gives its charge back, if it has one, and turns to `stage`
    have hturn : ∀ stage : Stage, stage.Free → Effect deps event s
        (((if landed then s.insert_event row.event else s).refund call row).set_stage i stage) := by
      intro stage hfree
      generalize (if landed then s.insert_event row.event else s) = s₁ at hsame hcalls
      unfold Server.refund
      cases hcharge : row.reply.charge with
      | none => exact effect_leave hsame hcalls hcall (hpending.trans hcharge) hfree
      | some charge =>
        obtain ⟨hlt, -, hsome⟩ := hcon.backed call (List.mem_of_getElem? hcall) charge (by rw [hpending, hcharge]; rfl)
        obtain ⟨state, hstate⟩ : ∃ state, s.packs[charge.pack]? = some state := ⟨_, List.getElem?_eq_getElem hlt⟩
        rw [Call.refund, hstage] at hsome
        obtain ⟨snapshot, hsnapshot⟩ := Option.isSome_iff_exists.1 hsome
        have hrestore : s₁.restore charge.pack call.requester.subject snapshot =
            { s₁.set_usage state call.requester.subject
                { requests := snapshot.agent_requests, tokens := snapshot.agent_tokens } with
              packs := s₁.packs.set charge.pack { state with
                used_run_tokens := snapshot.used_run_tokens
                cards := snapshot.cards
                history := snapshot.history_entries } } := by
          simp only [Server.restore, hsame.packs, hstate]
        simp only [hsnapshot, hrestore]
        refine .refund hcalls.answers i landed call row charge snapshot state
          { state with
            used_run_tokens := snapshot.used_run_tokens
            cards := snapshot.cards
            history := snapshot.history_entries }
          stage hevent hcall hstage hcharge hsnapshot hstate ⟨rfl, rfl, rfl⟩ rfl ?_ hsame.made_with ?_ hsame.run_usage hfree ?_
          hcalls.forfeits
        · simp only [Server.set_stage, hsame.packs]
        · simp only [Server.set_stage, Server.set_usage, hsame.usages]
        · simp only [Server.set_stage, Server.set_usage, hcalls.calls]
    dsimp only
    split
    · exact hturn _ free_done
    · exact hturn _ (free_unexpected_error _ _)
  · exact .of_same (.refl s) (.refl s)
  · rename_i hwriting hdone
    refine hleave _ ?_ (free_unexpected_error _ _)
    unfold Call.pending
    split
    · rename_i row hstage
      exact absurd hstage (hwriting row)
    · rfl

theorem effect_call_tool (requester : Requester) (tool : Tool) (interruption : Option Interruption) :
    Effect deps event s (s.call_tool deps requester tool interruption) := by
  cases interruption with
  | none =>
    refine .quiet ⟨rfl, rfl, rfl, fun _ _ h => h⟩ rfl
      [{ subject := requester.subject
         kb_version := (run_tool deps s.db s.windows requester tool).kb_version
         reply := (run_tool deps s.db s.windows requester tool).reply }] rfl ?_ rfl
    intro answer hanswer
    rw [List.mem_singleton.1 hanswer]
    exact run_tool_uncharged s.db s.windows requester tool
  | some interruption =>
    cases interruption with
    | raised landed =>
      exact .of_same ⟨rfl, rfl, rfl, fun _ _ h => h⟩ ⟨rfl, rfl, rfl⟩
    | cancelled landed =>
      exact .of_same ⟨rfl, rfl, rfl, fun _ _ h => h⟩ ⟨rfl, rfl, rfl⟩

/-- Every step has one of the effects. -/
theorem step_effect (hcon : Consistent s) (event : Event) : Effect deps event s (s.step deps event) := by
  have hnone : Effect deps event s s := .of_same (.refl s) (.refl s)
  cases event with
  | begin requester request => exact effect_begin requester request
  | resume i =>
    simp only [Server.step]
    cases hcall : s.calls[i]? with
    | none => exact hnone
    | some call => exact effect_resume hcall rfl
  | fail i landed =>
    simp only [Server.step]
    cases hcall : s.calls[i]? with
    | none => exact hnone
    | some call => exact effect_fail hcon hcall rfl
  | cancel i landed =>
    simp only [Server.step]
    cases hcall : s.calls[i]? with
    | none => exact hnone
    | some call => exact effect_cancel hcall rfl
  | call requester tool interruption => exact effect_call_tool requester tool interruption
  | publish registry centrality_scores => exact .of_same ⟨rfl, rfl, rfl, fun _ _ h => h⟩ ⟨rfl, rfl, rfl⟩

/-- A lock that a call has after a step it had before, or nobody had it. -/
theorem Takes.holds {call : Call} {stage : Stage} (h : Takes deps s call (.await stage)) (pack : Ref)
    (hpack : stage.holds = some pack) :
    call.stage.holds = some pack ∨ ∀ other ∈ s.calls, other.stage.holds ≠ some pack := by
  cases h with
  | await _ _ hlock _ =>
    refine (hlock pack hpack).imp_right fun hfree other hother heq => ?_
    rw [Server.locked, List.any_eq_false] at hfree
    exact hfree other hother (by rw [heq]; exact beq_self_eq_true _)

theorem locked_free {pack : Ref} (h : s.locked pack = false) : ∀ other ∈ s.calls, other.stage.holds ≠ some pack := by
  intro other hother heq
  rw [Server.locked, List.any_eq_false] at h
  exact h other hother (by rw [heq]; exact beq_self_eq_true _)

/-- A call takes its charge under the pack's lock: it holds it, or nobody does. -/
theorem Takes.charge_holds {call : Call} {charge : Charge} {cards : List EvidenceCard} {recorded : Option PastRetrieval}
    {row : Writing} (h : Takes deps s call (.charge charge cards recorded row)) :
    call.stage.holds = some charge.pack ∨ ∀ other ∈ s.calls, other.stage.holds ≠ some charge.pack := by
  cases h with
  | more _ _ _ _ _ _ hholds _ _ _ => exact .inl hholds
  | opened _ _ _ _ _ hfree _ _ _ _ _ => exact .inr (locked_free hfree)
  | expanded _ _ _ _ _ _ _ _ hfree _ _ _ _ => exact .inr (locked_free hfree)

/-- No other call holds the lock under which a call takes its charge. -/
theorem Takes.charge_alone (hcon : Consistent s) {i j : Nat} {call other : Call} {charge : Charge}
    {cards : List EvidenceCard} {recorded : Option PastRetrieval} {row : Writing}
    (h : Takes deps s call (.charge charge cards recorded row)) (hcall : s.calls[i]? = some call)
    (hother : s.calls[j]? = some other) (hne : j ≠ i) : other.stage.holds ≠ some charge.pack := by
  intro hholds
  cases h.charge_holds with
  | inl hown => exact hne (hcon.exclusive j i other call charge.pack hother hcall hholds hown)
  | inr hfree => exact hfree other (List.mem_of_getElem? hother) hholds

theorem Takes.charge_reply {call : Call} {charge : Charge} {cards : List EvidenceCard}
    {recorded : Option PastRetrieval} {row : Writing} (h : Takes deps s call (.charge charge cards recorded row)) :
    row.reply.charge = some charge := by
  cases h with
  | more _ _ _ _ _ _ _ _ _ hcharge => exact hcharge
  | opened _ _ _ _ _ _ _ _ _ _ hcharge => exact hcharge
  | expanded _ _ _ _ _ _ _ _ _ _ _ _ hcharge => exact hcharge

theorem Stage.pending_of_uncharged {call : Call} {stage : Stage}
    (h : ∀ row, stage = .writing row → row.reply.charge = none) : ({ call with stage } : Call).pending = none := by
  unfold Call.pending
  split
  · rename_i row hstage
    exact h row hstage
  · rfl

theorem Takes.pending {call : Call} {stage : Stage} (h : Takes deps s call (.await stage)) :
    ({ call with stage } : Call).pending = none := by
  cases h with
  | await _ huncharged _ _ => exact Stage.pending_of_uncharged huncharged

end Step

section Consistency

variable {deps : ServerDeps} {s s' : Server} {event : Event}

/-- What is backed stays so when the packs grow or one of them changes. -/
private theorem backed_mono {call : Call}
    (h : ∀ charge ∈ call.pending,
      charge.pack < s.packs.length ∧ call.stage.holds = some charge.pack ∧ call.refund.isSome)
    (hle : s.packs.length ≤ s'.packs.length) : ∀ charge ∈ call.pending,
      charge.pack < s'.packs.length ∧ call.stage.holds = some charge.pack ∧ call.refund.isSome := by
  intro charge hcharge
  obtain ⟨hlt, hrest⟩ := h charge hcharge
  exact ⟨Nat.lt_of_lt_of_le hlt hle, hrest⟩

private theorem backed_modify (hcon : Consistent s) {i : Nat} {call : Call} {stage : Stage}
    (hcall : s.calls[i]? = some call) (hle : s.packs.length ≤ s'.packs.length)
    (hnew : ∀ charge ∈ ({ call with stage } : Call).pending, charge.pack < s'.packs.length ∧
      stage.holds = some charge.pack ∧ ({ call with stage } : Call).refund.isSome)
    (hcalls : s'.calls = s.calls.modify i fun call => { call with stage }) :
    ∀ call ∈ s'.calls, ∀ charge ∈ call.pending,
      charge.pack < s'.packs.length ∧ call.stage.holds = some charge.pack ∧ call.refund.isSome := by
  rw [hcalls]
  exact forall_mem_modify (fun _ other _ _ h => backed_mono h hle) hcon.backed hcall hnew

theorem Consistent.of_same (hcon : Consistent s) (hsame : SameMeters s s')
    (hexclusive : Exclusive (fun call : Call => call.stage.holds) s'.calls)
    (hbacked : ∀ call ∈ s'.calls, ∀ charge ∈ call.pending,
      charge.pack < s'.packs.length ∧ call.stage.holds = some charge.pack ∧ call.refund.isSome)
    (hanswered : ∀ answer ∈ s'.answers, ∀ charge ∈ answer.reply.charge, charge.pack < s.packs.length)
    (hforfeited : ∀ forfeit ∈ s'.forfeits, forfeit.2.pack < s.packs.length) : Consistent s' where
  exclusive := hexclusive
  backed := hbacked
  answered := by rwa [hsame.packs]
  forfeited := by rwa [hsame.packs]
  meter := by
    rw [hsame.packs, hsame.usages]
    exact hcon.meter
  registered := by
    rw [hsame.usages]
    exact fun run usage h => hcon.registered run usage (hsame.run_usage run usage h)
  made := by rw [hsame.made_with, hsame.packs, hcon.made]

/-- The run's meter is an old one or the next. -/
theorem usage_for_run_cases (b : Broker) (run : String) :
    (∃ usage, b.store.run_usage.get? run = some usage ∧ b.usage_for_run run = (b, usage)) ∨
      (b.store.run_usage.get? run = none ∧ (b.usage_for_run run).1.usages = b.usages ++ [[]] ∧
        (b.usage_for_run run).1.store.run_usage = b.store.run_usage.set run b.usages.length ∧
        (b.usage_for_run run).2 = b.usages.length) := by
  unfold Broker.usage_for_run
  cases hget : b.store.run_usage.get? run with
  | some usage => exact .inl ⟨usage, rfl, rfl⟩
  | none => exact .inr ⟨rfl, rfl, rfl, rfl⟩

/-- One pack changes, with one of its call's stages, and some meter with it. -/
private theorem Consistent.of_set (hcon : Consistent s) {i : Nat} {call : Call} {stage : Stage} {ref : Ref}
    {pack pack' : PackState} (hcall : s.calls[i]? = some call) (hpack : s.packs[ref]? = some pack)
    (hkept : SamePack pack pack')
    (hlock : ∀ lock, stage.holds = some lock →
      call.stage.holds = some lock ∨ ∀ other ∈ s.calls, other.stage.holds ≠ some lock)
    (hnew : ∀ charge ∈ ({ call with stage } : Call).pending, charge.pack < s.packs.length ∧
      stage.holds = some charge.pack ∧ ({ call with stage } : Call).refund.isSome)
    (hpacks : s'.packs = s.packs.set ref pack') (hmade : s'.made_with = s.made_with)
    (husages : s'.usages.length = s.usages.length)
    (hstore : ∀ run usage, s'.store.run_usage.get? run = some usage → s.store.run_usage.get? run = some usage)
    (hanswers : s'.answers = s.answers) (hforfeits : s'.forfeits = s.forfeits)
    (hcalls : s'.calls = s.calls.modify i fun call => { call with stage }) : Consistent s' := by
  have hlen : s'.packs.length = s.packs.length := by rw [hpacks, List.length_set]
  refine ⟨?_, ?_, ?_, ?_, ?_, ?_, ?_⟩
  · rw [hcalls]
    exact hcon.exclusive.modify hcall hlock
  · exact backed_modify hcon hcall (le_of_eq hlen.symm) (by rw [hlen]; exact hnew) hcalls
  · rw [hanswers, hlen]
    exact hcon.answered
  · rw [hforfeits, hlen]
    exact hcon.forfeited
  · intro other hother
    rw [hpacks] at hother
    rw [husages]
    cases List.mem_or_eq_of_mem_set hother with
    | inl hold => exact hcon.meter other hold
    | inr hset =>
      rw [hset, hkept.agent_usage]
      exact hcon.meter pack (List.mem_of_getElem? hpack)
  · rw [husages]
    exact fun run usage h => hcon.registered run usage (hstore run usage h)
  · rw [hmade, hlen, hcon.made]

/-- One call goes to a stage that charges nothing. -/
private theorem Consistent.of_stage (hcon : Consistent s) {i : Nat} {call : Call} {stage : Stage}
    (hsame : SameMeters s s') (hcall : s.calls[i]? = some call)
    (hlock : ∀ lock, stage.holds = some lock →
      call.stage.holds = some lock ∨ ∀ other ∈ s.calls, other.stage.holds ≠ some lock)
    (hpending : ({ call with stage } : Call).pending = none)
    (hcalls : s'.calls = s.calls.modify i fun call => { call with stage })
    (hanswered : ∀ answer ∈ s'.answers, ∀ charge ∈ answer.reply.charge, charge.pack < s.packs.length)
    (hforfeited : ∀ forfeit ∈ s'.forfeits, forfeit.2.pack < s.packs.length) : Consistent s' := by
  refine hcon.of_same hsame ?_ ?_ hanswered hforfeited
  · rw [hcalls]
    exact hcon.exclusive.modify hcall hlock
  · refine backed_modify hcon hcall (by rw [hsame.packs]) ?_ hcalls
    intro charge hcharge
    rw [hpending] at hcharge
    cases hcharge

theorem Stage.holds_done (lock : Ref) : Stage.done.holds ≠ some lock := by simp [Stage.holds]

/-- With the meter of a run at hand no meter is lost, and every run's meter is there. -/
theorem Consistent.usage_for_run (hcon : Consistent s) (run : String) :
    s.usages.length ≤ (s.broker.usage_for_run run).1.usages.length ∧
      (s.broker.usage_for_run run).2 < (s.broker.usage_for_run run).1.usages.length ∧
      ∀ other usage, (s.broker.usage_for_run run).1.store.run_usage.get? other = some usage →
        usage < (s.broker.usage_for_run run).1.usages.length := by
  cases usage_for_run_cases s.broker run with
  | inl hold =>
    obtain ⟨usage, hget, heq⟩ := hold
    rw [heq]
    exact ⟨le_refl _, hcon.registered _ _ hget, hcon.registered⟩
  | inr hnew =>
    obtain ⟨-, husages, hstore, hmeter⟩ := hnew
    rw [husages, hstore, hmeter]
    simp only [List.length_append, List.length_singleton]
    refine ⟨Nat.le_succ _, Nat.lt_succ_self _, ?_⟩
    intro other usage hget
    rw [Dict.get?_set] at hget
    split at hget
    · rw [← Option.some.inj hget]
      exact Nat.lt_succ_self _
    · exact Nat.lt_succ_of_lt (hcon.registered other usage hget)

/-- A pack more, on the meter of its run. -/
private theorem Consistent.of_make (hcon : Consistent s) {i : Nat} {call : Call} {pack : PackState} {row : Writing}
    (hcall : s.calls[i]? = some call) (htakes : Takes deps s call (.make pack row))
    (hpacks : s'.packs = s.packs ++ [pack]) (hmade : s'.made_with = s.made_with ++ [pack.used_run_tokens])
    (husages : s'.usages = (s.broker.usage_for_run pack.run_id).1.usages)
    (hstore : s'.store = (s.broker.usage_for_run pack.run_id).1.store)
    (hcalls : s'.calls = s.calls.modify i fun call => { call with stage := .writing row })
    (hanswers : s'.answers = s.answers) (hforfeits : s'.forfeits = s.forfeits) : Consistent s' := by
  obtain ⟨hmeter, hlock, huncharged⟩ : pack.agent_usage = (s.broker.usage_for_run pack.run_id).2 ∧ row.lock = none ∧
      row.reply.charge = none := by
    cases htakes with
    | make _ _ _ hmeter hlock huncharged => exact ⟨hmeter, hlock, huncharged⟩
  obtain ⟨hmore, hown, hregistered⟩ := hcon.usage_for_run pack.run_id
  have hgrown : s.packs.length ≤ s'.packs.length := by
    rw [hpacks, List.length_append]
    omega
  constructor
  case exclusive =>
    rw [hcalls]
    refine hcon.exclusive.modify hcall fun lock hholds => ?_
    simp [Stage.holds, hlock] at hholds
  case backed =>
    refine backed_modify hcon hcall hgrown ?_ hcalls
    intro charge hcharge
    simp [Call.pending, huncharged] at hcharge
  case answered =>
    rw [hanswers]
    exact fun answer hanswer charge hcharge => Nat.lt_of_lt_of_le (hcon.answered answer hanswer charge hcharge) hgrown
  case forfeited =>
    rw [hforfeits]
    exact fun forfeit hforfeit => Nat.lt_of_lt_of_le (hcon.forfeited forfeit hforfeit) hgrown
  case meter =>
    rw [husages]
    intro other hother
    rw [hpacks] at hother
    cases List.mem_append.1 hother with
    | inl hold => exact Nat.lt_of_lt_of_le (hcon.meter other hold) hmore
    | inr hnew =>
      rw [List.mem_singleton.1 hnew, hmeter]
      exact hown
  case registered =>
    rw [hstore, husages]
    exact hregistered
  case made =>
    rw [hmade, hpacks, List.length_append, List.length_append, hcon.made]
    rfl

/-- Every step keeps the server consistent. -/
theorem Consistent.effect (hcon : Consistent s) (heffect : Effect deps event s s') : Consistent s' := by
  cases heffect with
  | quiet hsame hcalls answers hanswers huncharged hforfeits =>
    refine hcon.of_same hsame (hcalls ▸ hcon.exclusive) ?_ ?_ (hforfeits ▸ hcon.forfeited)
    · rw [hcalls, hsame.packs]
      exact hcon.backed
    · intro answer hanswer charge hcharge
      rw [hanswers] at hanswer
      cases List.mem_append.1 hanswer with
      | inl hold => exact hcon.answered answer hold charge hcharge
      | inr hnew => simp [huncharged answer hnew] at hcharge
  | arrive hsame hanswers call hfree hcalls hforfeits =>
    refine hcon.of_same hsame (hcalls ▸ hcon.exclusive.append hfree.holds) ?_ (hanswers ▸ hcon.answered)
      (hforfeits ▸ hcon.forfeited)
    rw [hcalls, hsame.packs]
    intro other hother charge hcharge
    cases List.mem_append.1 hother with
    | inl hold => exact hcon.backed other hold charge hcharge
    | inr hnew =>
      have hnone : call.pending = none := Stage.pending_of_uncharged hfree.uncharged
      rw [List.mem_singleton.1 hnew, hnone] at hcharge
      simp at hcharge
  | move hsame hanswers i call stage hcall hpending htakes hcalls hforfeits =>
    exact hcon.of_stage hsame hcall htakes.holds htakes.pending hcalls (hanswers ▸ hcon.answered)
      (hforfeits ▸ hcon.forfeited)
  | make hanswers i call pack row hevent hcall hpending haction htakes hpacks hmade husages hstore hcalls hforfeits =>
    exact hcon.of_make hcall htakes hpacks hmade husages hstore hcalls hanswers hforfeits
  | charge hanswers i call charge cards recorded row state charged hevent hcall hpending haction htakes hpack hkept
      hused hpacks hmade husages hstore snapshot hsnapshot hcalls hforfeits =>
    refine hcon.of_set hcall hpack hkept ?_ ?_ hpacks hmade ?_ hstore hanswers hforfeits hcalls
    · intro lock hholds
      simp only [Stage.holds, Option.some.injEq] at hholds
      exact hholds ▸ htakes.charge_holds
    · intro other hother
      simp only [Call.pending, htakes.charge_reply, Option.mem_def, Option.some.injEq] at hother
      subst hother
      exact ⟨(List.getElem?_eq_some_iff.1 hpack).1, rfl, rfl⟩
    · rw [husages, List.length_modify]
  | finish hsame i call row answer hcall hstage hsubject hreply hanswers hcalls hforfeits =>
    have hpending : call.pending = row.reply.charge := by rw [Call.pending, hstage]
    refine hcon.of_stage hsame hcall (fun lock hholds => absurd hholds (Stage.holds_done lock)) rfl hcalls ?_
      (hforfeits ▸ hcon.forfeited)
    -- the charge of the answer is the one its call was waiting with
    intro other hother charge hcharge
    rw [hanswers] at hother
    cases List.mem_append.1 hother with
    | inl hold => exact hcon.answered other hold charge hcharge
    | inr hnew =>
      rw [List.mem_singleton.1 hnew, hreply, ← hpending] at hcharge
      exact (hcon.backed call (List.mem_of_getElem? hcall) charge hcharge).1
  | refund hanswers i landed call row charge snapshot state restored stage hevent hcall hstage hcharge hrefund hpack
      hkept hused hpacks hmade husages hstore hfree hcalls hforfeits =>
    refine hcon.of_set hcall hpack hkept ?_ ?_ hpacks hmade ?_ hstore hanswers hforfeits hcalls
    · intro lock hholds
      rw [hfree.holds] at hholds
      simp at hholds
    · intro other hother
      rw [Stage.pending_of_uncharged hfree.uncharged] at hother
      simp at hother
    · rw [husages, List.length_modify]
  | forfeit hsame hanswers i landed call charge hevent hcall hpending hcalls hforfeits =>
    refine hcon.of_stage hsame hcall (fun lock hholds => absurd hholds (Stage.holds_done lock)) rfl hcalls
      (hanswers ▸ hcon.answered) ?_
    intro other hother
    rw [hforfeits] at hother
    cases List.mem_append.1 hother with
    | inl hold => exact hcon.forfeited other hold
    | inr hnew =>
      rw [List.mem_singleton.1 hnew]
      exact (hcon.backed call (List.mem_of_getElem? hcall) charge hpending).1

end Consistency

end AgenticKb.ContextBroker

import AgenticKb.Properties.ServerSteps

open AgenticKb.Lib

namespace AgenticKb.ContextBroker

/-- A pack after a charge, with what the call registers in it. -/
def PackState.charged (pack : PackState) (tokens : Nat) (cards : List EvidenceCard)
    (recorded : Option PastRetrieval) : PackState :=
  { pack with
    used_run_tokens := pack.used_run_tokens + tokens
    cards := cards.foldl (fun d card => d.set card.evidence_id card) pack.cards
    history := pack.history ++ recorded.toList }

/-- A pack after a refund. -/
def PackState.restored (pack : PackState) (snapshot : PackSnapshot) : PackState :=
  { pack with
    used_run_tokens := snapshot.used_run_tokens
    cards := snapshot.cards
    history := snapshot.history_entries }

/-- What a call is left with when its work ends early or its row is written. -/
def Call.Leaves (call : Call) (stage : Stage) : Prop :=
  stage = .done ∨ stage = .writing (unexpected_error call.requester call.tool_name)

/-- What one step does to the contents of the packs and to the calls. -/
inductive PackStep (deps : ServerDeps) (s s' : Server) : Prop
  | idle (hpacks : s'.packs = s.packs) (hcalls : s'.calls = s.calls)
  /-- A call comes in. -/
  | arrive (hpacks : s'.packs = s.packs) (requester : Requester) (request : Request) (stage : Stage)
      (hstage : begin_call s requester request = .await stage ∨
        stage = .writing (unexpected_error requester request.tool_name))
      (hcalls : s'.calls = s.calls ++ [⟨requester, request.tool_name, stage⟩])
  /-- A call goes on to its next await. -/
  | move (hpacks : s'.packs = s.packs) (i : Nat) (call : Call) (stage : Stage) (hcall : s.calls[i]? = some call)
      (haction : resume_call deps s call = some (.await stage))
      (hcalls : s'.calls = s.calls.modify i fun call => { call with stage })
  /-- A call returns, or ends with nothing to give back. -/
  | leave (hpacks : s'.packs = s.packs) (i : Nat) (call : Call) (stage : Stage) (hcall : s.calls[i]? = some call)
      (hleaves : call.Leaves stage) (hcalls : s'.calls = s.calls.modify i fun call => { call with stage })
  | make (i : Nat) (call : Call) (pack : PackState) (row : Writing) (hcall : s.calls[i]? = some call)
      (haction : resume_call deps s call = some (.make pack row)) (hpacks : s'.packs = s.packs ++ [pack])
      (hcalls : s'.calls = s.calls.modify i fun call => { call with stage := .writing row })
  | charge (i : Nat) (call : Call) (charge : Charge) (cards : List EvidenceCard) (recorded : Option PastRetrieval)
      (row : Writing) (state : PackState) (hcall : s.calls[i]? = some call)
      (haction : resume_call deps s call = some (.charge charge cards recorded row))
      (hpack : s.packs[charge.pack]? = some state)
      (hpacks : s'.packs = s.packs.set charge.pack (state.charged charge.tokens cards recorded))
      (hcalls : s'.calls = s.calls.modify i fun other =>
        { other with
          stage := .writing { row with
            lock := some charge.pack, refund := some (s.snapshot state call.requester.subject) } })
  /-- A call that has charged raises: its pack is as it was. -/
  | restore (i : Nat) (call : Call) (row : Writing) (charge : Charge) (snapshot : PackSnapshot) (state : PackState)
      (stage : Stage) (hcall : s.calls[i]? = some call) (hstage : call.stage = .writing row)
      (hcharge : row.reply.charge = some charge) (hrefund : row.refund = some snapshot)
      (hpack : s.packs[charge.pack]? = some state) (hleaves : call.Leaves stage)
      (hpacks : s'.packs = s.packs.set charge.pack (state.restored snapshot))
      (hcalls : s'.calls = s.calls.modify i fun call => { call with stage })

section Step

variable {deps : ServerDeps} {s : Server} {i : Nat} {call : Call}

private theorem pack_step_begin (requester : Requester) (request : Request) :
    PackStep deps s (s.begin requester request) := by
  obtain ⟨s₁, hs₁, hpacks, hcalls⟩ : ∃ s₁ : Server, s.begin requester request =
      { s₁ with calls := s₁.calls ++ [⟨requester, request.tool_name, .done⟩] : Server }.perform s₁.calls.length
        ⟨requester, request.tool_name, .done⟩ (begin_call s requester request) ∧ s₁.packs = s.packs ∧
        s₁.calls = s.calls := by
    have hlook : ∀ id, (s.look_up id).packs = s.packs ∧ (s.look_up id).calls = s.calls := by
      intro id
      exact ⟨(sameMeters_look_up id).packs, (sameCalls_look_up id).calls⟩
    cases request with
    | create_pack request id => exact ⟨s, rfl, rfl, rfl⟩
    | expand request => exact ⟨s, rfl, rfl, rfl⟩
    | read_pack id => exact ⟨_, rfl, hlook _⟩
    | request_more request => exact ⟨_, rfl, hlook _⟩
    | open_evidence request => exact ⟨_, rfl, hlook _⟩
  have harrive : ∀ stage : Stage, (begin_call s requester request = .await stage ∨
      stage = .writing (unexpected_error requester request.tool_name)) → PackStep deps s
        ({ s₁ with calls := s₁.calls ++ [⟨requester, request.tool_name, .done⟩] : Server }.set_stage s₁.calls.length
          stage) := by
    intro stage hstage
    refine .arrive hpacks requester request stage hstage ?_
    simp only [Server.set_stage]
    rw [modify_concat_length, hcalls]
  rw [hs₁]
  cases free_begin_call s requester request with
  | inl hraise =>
    rw [hraise]
    exact harrive _ (.inr rfl)
  | inr hawait =>
    obtain ⟨stage, hstage, -⟩ := hawait
    rw [hstage]
    exact harrive stage (.inl hstage)

private theorem pack_step_perform {s₁ : Server} {action : Action} (hcall : s.calls[i]? = some call)
    (haction : resume_call deps s call = some action) (hpacks : s₁.packs = s.packs) (hcalls : s₁.calls = s.calls)
    (husage : ∀ pack, s₁.usage_for pack = s.usage_for pack) : PackStep deps s (s₁.perform i call action) := by
  have hset : ∀ stage, (s₁.set_stage i stage).calls = s.calls.modify i fun call => { call with stage } := by
    intro stage
    rw [Server.set_stage, hcalls]
  cases action with
  | await stage => exact .move hpacks i call stage hcall haction (hset stage)
  | raise => exact .leave hpacks i call _ hcall (.inr rfl) (hset _)
  | make pack row =>
    refine .make i call pack row hcall haction ?_ ?_
    · simp only [Server.perform, Server.set_stage, hpacks]
    · simp only [Server.perform, Server.set_stage, hcalls]
  | charge charge cards recorded row =>
    obtain ⟨state, hstate⟩ : ∃ state, s.packs[charge.pack]? = some state := by
      cases takes_resume_call haction with
      | more _ _ _ _ _ _ _ _ hpack _ => exact hpack
      | opened _ _ _ _ state _ hpack _ _ _ _ => exact ⟨state, hpack⟩
      | expanded _ _ _ _ _ _ state _ _ hpack _ _ _ => exact ⟨state, hpack⟩
    have hsnapshot : s₁.snapshot state call.requester.subject = s.snapshot state call.requester.subject := by
      simp only [Server.snapshot, husage]
    have hperform : s₁.perform i call (.charge charge cards recorded row) =
        { s₁.set_usage state call.requester.subject
            ((s.usage_for state call.requester.subject).add charge.requests charge.tokens) with
          packs := s₁.packs.set charge.pack (state.charged charge.tokens cards recorded) : Server }.set_stage i (.writing
          { row with
            lock := some charge.pack
            refund := some (s.snapshot state call.requester.subject) }) := by
      simp only [Server.perform, Server.charge, hpacks, hstate, Option.map_some, hsnapshot, husage, PackState.charged]
    rw [hperform]
    refine .charge i call charge cards recorded row state hcall haction hstate ?_ ?_
    · simp only [Server.set_stage, hpacks]
    · simp only [Server.set_stage, Server.set_usage, hcalls]

/-- A row lands or is given up; the packs, the calls and the meters stay. -/
private theorem frame_insert_event (s : Server) (landed : Bool) (event : RetrievalEventInsert) :
    (if landed then s.insert_event event else s).packs = s.packs ∧
      (if landed then s.insert_event event else s).calls = s.calls :=
  ⟨(same_insert_event s landed event).1.packs, (same_insert_event s landed event).2.calls⟩

private theorem pack_step_leave {s₁ : Server} {stage : Stage} (hcall : s.calls[i]? = some call)
    (hpacks : s₁.packs = s.packs) (hcalls : s₁.calls = s.calls) (hleaves : call.Leaves stage) :
    PackStep deps s (s₁.set_stage i stage) := by
  refine .leave hpacks i call stage hcall hleaves ?_
  rw [Server.set_stage, hcalls]

private theorem pack_step_resume (hcall : s.calls[i]? = some call) : PackStep deps s (s.resume deps i call) := by
  have hgoes : PackStep deps s (s.go_on i call (resume_call deps s call)) := by
    cases haction : resume_call deps s call with
    | none => exact .idle rfl rfl
    | some action =>
      obtain ⟨hsame, hcalls⟩ := And.intro (sameMeters_look_up (s := s) (call.looks_up s.db)) (sameCalls_look_up _)
      apply pack_step_perform hcall haction hsame.packs hcalls.calls
      intro pack
      funext subject
      simp only [Server.usage_for, Server.broker, Broker.usage_for, hsame.usages]
  unfold Server.resume
  cases hstage : call.stage with
  | writing row =>
    obtain ⟨hsame, hcalls⟩ : SameMeters s (row.stores.elim (s.insert_event row.event) (s.insert_event row.event).store_pack) ∧
        SameCalls s (row.stores.elim (s.insert_event row.event) (s.insert_event row.event).store_pack) := by
      obtain ⟨hsame, hcalls⟩ := same_insert_event s true row.event
      cases row.stores with
      | none => exact ⟨hsame, hcalls⟩
      | some ref =>
        obtain ⟨hstored, hstored_calls⟩ := same_store_pack (s.insert_event row.event) ref
        exact ⟨hsame.trans hstored, hcalls.trans hstored_calls⟩
    exact pack_step_leave hcall hsame.packs hcalls.calls (.inl rfl)
  | _ => exact hgoes

private theorem pack_step_cancel (hcall : s.calls[i]? = some call) (landed : Bool) :
    PackStep deps s (s.cancel i call landed) := by
  unfold Server.cancel
  split
  · obtain ⟨hpacks, hcalls⟩ := frame_insert_event s landed _
    exact pack_step_leave hcall hpacks hcalls (.inl rfl)
  · exact pack_step_leave hcall rfl rfl (.inl rfl)

private theorem pack_step_fail (hcon : Consistent s) (hcall : s.calls[i]? = some call) (landed : Bool) :
    PackStep deps s (s.fail i call landed) := by
  unfold Server.fail
  split
  · rename_i row hstage
    obtain ⟨hpacks, hcalls⟩ := frame_insert_event s landed row.event
    -- the call gives its charge back, if it has one, and turns to `stage`
    have hturn : ∀ stage : Stage, call.Leaves stage → PackStep deps s
        (((if landed then s.insert_event row.event else s).refund call row).set_stage i stage) := by
      intro stage hleaves
      generalize (if landed then s.insert_event row.event else s) = s₁ at hpacks hcalls
      unfold Server.refund
      cases hcharge : row.reply.charge with
      | none => exact pack_step_leave hcall hpacks hcalls hleaves
      | some charge =>
        obtain ⟨hlt, -, hsome⟩ := hcon.backed call (List.mem_of_getElem? hcall) charge
          (by rw [Call.pending, hstage]; exact hcharge)
        obtain ⟨state, hstate⟩ : ∃ state, s.packs[charge.pack]? = some state := ⟨_, List.getElem?_eq_getElem hlt⟩
        rw [Call.refund, hstage] at hsome
        obtain ⟨snapshot, hsnapshot⟩ := Option.isSome_iff_exists.1 hsome
        have hrestore : s₁.restore charge.pack call.requester.subject snapshot =
            { s₁.set_usage state call.requester.subject
                { requests := snapshot.agent_requests, tokens := snapshot.agent_tokens } with
              packs := s₁.packs.set charge.pack (state.restored snapshot) } := by
          simp only [Server.restore, hpacks, hstate, PackState.restored]
        simp only [hsnapshot, hrestore]
        refine .restore i call row charge snapshot state stage hcall hstage hcharge hsnapshot hstate hleaves ?_ ?_
        · simp only [Server.set_stage, hpacks]
        · simp only [Server.set_stage, Server.set_usage, hcalls]
    dsimp only
    split
    · exact hturn _ (.inl rfl)
    · exact hturn _ (.inr rfl)
  · exact .idle rfl rfl
  · exact pack_step_leave hcall rfl rfl (.inr rfl)

/-- Every step is one of these. -/
theorem pack_step (hcon : Consistent s) (event : Event) : PackStep deps s (s.step deps event) := by
  cases event with
  | begin requester request => exact pack_step_begin requester request
  | resume i =>
    simp only [Server.step]
    cases hcall : s.calls[i]? with
    | none => exact .idle rfl rfl
    | some call => exact pack_step_resume hcall
  | fail i landed =>
    simp only [Server.step]
    cases hcall : s.calls[i]? with
    | none => exact .idle rfl rfl
    | some call => exact pack_step_fail hcon hcall landed
  | cancel i landed =>
    simp only [Server.step]
    cases hcall : s.calls[i]? with
    | none => exact .idle rfl rfl
    | some call => exact pack_step_cancel hcall landed
  | call requester tool interruption =>
    cases interruption with
    | none => exact .idle rfl rfl
    | some interruption =>
      cases interruption with
      | raised landed => exact .idle rfl rfl
      | cancelled landed => exact .idle rfl rfl
  | publish registry centrality_scores => exact .idle rfl rfl

end Step

end AgenticKb.ContextBroker

import AgenticKb.ContextBroker.Server
import AgenticKb.Lib.Tasks

open AgenticKb.Lib

namespace AgenticKb.ContextBroker

/-- What a `request_more` has been cleared for, while it retrieves. -/
def Stage.asks : Stage → Option (Ref × Nat)
  | .more_search request pack | .more_hydrate request pack _ => some (pack, request.max_tokens)
  | _ => none

/-- The run of the pack that a `create_pack` may make next. -/
def Stage.makes : Stage → Option String
  | .create_search request _ _ | .create_hydrate request _ _ _ | .create_symbols request _ _ _ _ => some request.run_id
  | _ => none

/-- What a call can do to the meters between two awaits. -/
inductive Takes (deps : ServerDeps) (s : Server) (call : Call) : Action → Prop
  /-- It goes on without a charge. A lock it holds then it held before or it was free, and what it asks for
  it asked for before or its pack and its agent have that much left. -/
  | await (stage : Stage) (huncharged : ∀ row, stage = .writing row → row.reply.charge = none)
      (hlock : ∀ pack, stage.holds = some pack → call.stage.holds = some pack ∨ s.locked pack = false)
      (hroom : ∀ pack tokens, stage.asks = some (pack, tokens) → call.stage.asks = some (pack, tokens) ∨
        ∃ state, s.packs[pack]? = some state ∧ tokens ≤ state.run_remaining_tokens) :
      Takes deps s call (.await stage)
  /-- It makes a pack that is within its budget, around the meter of its run. -/
  | make (pack : PackState) (row : Writing) (hbudget : pack.used_run_tokens ≤ pack.budget_tokens)
      (hmeter : pack.agent_usage = (s.broker.usage_for_run pack.run_id).2) (hlock : row.lock = none)
      (huncharged : row.reply.charge = none) (hrun : call.stage.makes = some pack.run_id) :
      Takes deps s call (.make pack row)
  /-- A `request_more` takes one request and no more tokens than what it asked for. -/
  | more (charge : Charge) (cards : List EvidenceCard) (recorded : Option PastRetrieval) (row : Writing)
      (max_tokens : Nat) (hasks : call.stage.asks = some (charge.pack, max_tokens))
      (hholds : call.stage.holds = some charge.pack) (htokens : charge.tokens ≤ max_tokens)
      (hpack : ∃ state, s.packs[charge.pack]? = some state) (hcharge : row.reply.charge = some charge)
      (hrequests : charge.requests = 1) : Takes deps s call (.charge charge cards recorded row)
  /-- An `open_evidence` takes no more than what its pack and its agent have left. -/
  | opened (charge : Charge) (cards : List EvidenceCard) (recorded : Option PastRetrieval) (row : Writing)
      (state : PackState) (hfree : s.locked charge.pack = false) (hpack : s.packs[charge.pack]? = some state)
      (hremaining : charge.tokens ≤ state.run_remaining_tokens) (hrequests : charge.requests = 0)
      (hallowed : (s.usage_for state call.requester.subject).tokens + charge.tokens ≤
        (deps.budget_policy.allowance_for call.requester.subject).max_tokens)
      (hcharge : row.reply.charge = some charge) : Takes deps s call (.charge charge cards recorded row)
  /-- An `expand` takes what its cards cost. -/
  | expanded (expansion : Expansion) (response : ExpandResponse) (charge : Charge) (cards : List EvidenceCard)
      (recorded : Option PastRetrieval) (row : Writing) (state : PackState)
      (hstage : call.stage = .expand_lock expansion charge.pack response) (hfree : s.locked charge.pack = false)
      (hpack : s.packs[charge.pack]? = some state) (htokens : charge.tokens = response.tokens_used)
      (hrequests : charge.requests = 0) (hcharge : row.reply.charge = some charge) :
      Takes deps s call (.charge charge cards recorded row)
  | raise : Takes deps s call .raise

section Spec

variable {deps : ServerDeps} {s : Server} {call : Call}

/-- A stage that holds no lock, asks for nothing and writes no row. -/
theorem Takes.idle {stage : Stage} (hwrites : ∀ row, stage ≠ .writing row) (hholds : stage.holds = none)
    (hasks : stage.asks = none) : Takes deps s call (.await stage) := by
  refine .await stage (fun row h => absurd h (hwrites row)) ?_ ?_
  · intro pack h
    rw [hholds] at h
    simp at h
  · intro pack tokens h
    rw [hasks] at h
    simp at h

/-- A row that charges nothing. -/
theorem Takes.writes {row : Writing} (huncharged : row.reply.charge = none)
    (hlock : ∀ pack, row.lock = some pack → call.stage.holds = some pack ∨ s.locked pack = false) :
    Takes deps s call (.await (.writing row)) := by
  refine .await _ ?_ hlock ?_
  · intro row' h
    rw [Stage.writing.injEq] at h
    exact h ▸ huncharged
  · intro pack tokens h
    simp [Stage.asks] at h

theorem Takes.error (event : RetrievalEventInsert) (message : String) : Takes deps s call (write_error event message) :=
  .writes rfl (by simp)

theorem Takes.with_pack {pack : Ref} {run : PackState → Action}
    (h : ∀ state, s.packs[pack]? = some state → Takes deps s call (run state)) :
    Takes deps s call (with_pack s pack run) := by
  unfold ContextBroker.with_pack
  cases hstate : s.packs[pack]? with
  | none => exact .raise
  | some state => exact h state hstate

theorem takes_make_pack {request : CreatePackRequest} {context_pack_id : String} {active : ActiveVersion}
    {found : List EvidenceCard} (hmakes : call.stage.makes = some request.run_id) :
    Takes deps s call (make_pack deps s call.requester request context_pack_id active found) :=
  .make _ _ (trim_to_budget_le _ _ _) rfl rfl rfl hmakes

section RequestMore

variable {request : RequestMoreRequest} {pack : Ref} {state : PackState}

theorem takes_more_reused {allowed : List String} {semantic : Bool}
    (hlock : call.stage.holds = some pack ∨ s.locked pack = false) :
    Takes deps s call (more_reused deps call.requester request pack state allowed semantic) := by
  unfold more_reused
  cases more_event deps call.requester request state .reused allowed [] with
  | none => exact .raise
  | some event => exact .writes rfl (by simpa using hlock)

theorem takes_more_refused {status : EventStatus} {reason : Option String} (hstatus : status ≠ .approved)
    (hlock : call.stage.holds = some pack ∨ s.locked pack = false) :
    Takes deps s call (more_refused deps call.requester request pack state status reason) := by
  unfold more_refused
  cases more_event deps call.requester request state status [] [] with
  | none => exact .raise
  | some event =>
    refine .writes ?_ (by simpa using hlock)
    cases status <;> first | rfl | exact absurd rfl hstatus

theorem takes_more_check (hstate : s.packs[pack]? = some state)
    (hlock : call.stage.holds = some pack ∨ s.locked pack = false) :
    Takes deps s call (more_check deps s call.requester request pack state) := by
  unfold more_check
  dsimp only
  split
  · exact takes_more_refused (by simp) hlock
  · split
    · exact takes_more_refused (by simp) hlock
    · split
      · exact takes_more_refused (by simp) hlock
      · rename_i hremaining
        refine .await _ (by simp) (by simpa [Stage.holds] using hlock) ?_
        intro ref tokens hasks
        simp only [Stage.asks, Option.some.injEq, Prod.mk.injEq] at hasks
        obtain ⟨rfl, rfl⟩ := hasks
        exact .inr ⟨state, hstate, by omega⟩

theorem takes_more_semantic (hstate : s.packs[pack]? = some state)
    (hlock : call.stage.holds = some pack ∨ s.locked pack = false) :
    Takes deps s call (more_semantic deps s call.requester request pack state) := by
  unfold more_semantic
  split
  · split
    · exact takes_more_reused hlock
    · exact .await _ (by simp) (by simpa [Stage.holds] using hlock) (by simp [Stage.asks])
  · exact takes_more_check hstate hlock

theorem takes_more_exact (hstate : s.packs[pack]? = some state)
    (hlock : call.stage.holds = some pack ∨ s.locked pack = false) :
    Takes deps s call (more_exact deps s call.requester request pack state) := by
  unfold more_exact
  split
  · split
    · exact takes_more_reused hlock
    · exact .await _ (by simp) (by simpa [Stage.holds] using hlock) (by simp [Stage.asks])
  · exact takes_more_semantic hstate hlock

theorem takes_more_reuse {reused : List String} {semantic : Bool} {otherwise : Action}
    (hlock : call.stage.holds = some pack ∨ s.locked pack = false) (hotherwise : Takes deps s call otherwise) :
    Takes deps s call (more_reuse deps s call.requester request pack state reused semantic otherwise) := by
  unfold more_reuse
  split
  · exact .raise
  · exact hotherwise
  · exact takes_more_reused hlock

theorem takes_more_charge {cards : List EvidenceCard} (hstate : s.packs[pack]? = some state)
    (hasks : call.stage.asks = some (pack, request.max_tokens)) (hholds : call.stage.holds = some pack) :
    Takes deps s call (more_charge deps call.requester request pack state cards) := by
  unfold more_charge
  dsimp only
  split
  · exact .more _ _ _ _ request.max_tokens hasks hholds (select_cards_le (Nat.zero_le _)) ⟨state, hstate⟩ rfl rfl
  · exact .raise

end RequestMore

section OpenEvidence

variable {request : OpenEvidenceRequest} {pack : Ref} {state : PackState} {card : EvidenceCard}

theorem takes_open_hydrate : Takes deps s call (open_hydrate deps s call.requester request pack state card) := by
  unfold open_hydrate
  split
  · exact .idle (by simp) rfl rfl
  · exact .error _ _

theorem takes_open_locked {body : String} (hstate : s.packs[pack]? = some state) (hfree : s.locked pack = false) :
    Takes deps s call (open_locked deps s call.requester request pack state card body) := by
  unfold open_locked
  dsimp only
  split
  · exact .writes rfl (by simp [hfree])
  · split
    · exact .writes rfl (by simp [hfree])
    · rename_i hremaining hallowed
      exact .opened _ _ _ _ state hfree hstate (Nat.le_of_not_lt hremaining) rfl (Nat.le_of_not_lt hallowed) rfl

end OpenEvidence

section Expand

variable {expansion : Expansion}

theorem takes_expand_active {request : ExpandRequest} :
    Takes deps s call (expand_active deps s call.requester request) := by
  unfold expand_active
  split
  · exact .error _ _
  · dsimp only
    split
    · exact .error _ _
    · exact .idle (by simp) rfl rfl

theorem takes_expand_found {walk : TierWalk} :
    Takes deps s call (expand_found deps call.requester expansion walk) := by
  unfold expand_found
  dsimp only
  split
  · exact .idle (by simp) rfl rfl
  · exact .writes rfl (by simp)

theorem takes_expand_tier {walk : TierWalk} :
    Takes deps s call (expand_tier deps call.requester expansion walk) := by
  unfold expand_tier
  split
  · exact .idle (by simp) rfl rfl
  · split
    · dsimp only
      split
      · exact takes_expand_found
      · exact .idle (by simp) rfl rfl
    · exact takes_expand_found

theorem takes_expand_edges {walk : TierWalk} :
    Takes deps s call (expand_edges deps s call.requester expansion walk) := by
  unfold expand_edges
  dsimp only
  split
  · exact takes_expand_tier
  · exact .idle (by simp) rfl rfl

end Expand

/-- Whatever a call does when its await is over. -/
theorem takes_resume_call {action : Action} (h : resume_call deps s call = some action) :
    Takes deps s call action := by
  have hlocked : ∀ {pack : Ref} {run : PackState → Action},
      (if s.locked pack then none else some (with_pack s pack run)) = some action →
      (s.locked pack = false → ∀ state, s.packs[pack]? = some state → Takes deps s call (run state)) →
      Takes deps s call action := by
    intro pack run hrun htakes
    cases hpack : s.locked pack with
    | true => simp [hpack] at hrun
    | false =>
      simp only [hpack, Bool.false_eq_true, if_false, Option.some.injEq] at hrun
      exact hrun ▸ .with_pack (htakes hpack)
  unfold resume_call at h
  cases hstage : call.stage with
  | create_active request id =>
    simp only [hstage, Option.some.injEq] at h
    subst h
    unfold create_active
    split
    · exact .error _ _
    · exact .idle (by simp) rfl rfl
  | create_search request id active =>
    simp only [hstage, Option.some.injEq] at h
    subst h
    unfold create_search
    dsimp only
    split
    · exact takes_make_pack (by rw [hstage]; rfl)
    · exact .idle (by simp) rfl rfl
  | create_hydrate request id active hits =>
    simp only [hstage, Option.some.injEq] at h
    subst h
    unfold create_hydrate
    dsimp only
    split
    · exact .idle (by simp) rfl rfl
    · exact takes_make_pack (by rw [hstage]; rfl)
  | create_symbols request id active hits artifacts =>
    simp only [hstage, Option.some.injEq] at h
    exact h ▸ takes_make_pack (by rw [hstage]; rfl)
  | read_hydrate pack all_cards =>
    simp only [hstage, Option.some.injEq] at h
    exact h ▸ .with_pack fun state _ => .writes rfl (by simp)
  | more_lock request pack =>
    simp only [hstage] at h
    exact hlocked h fun hfree state hstate => takes_more_exact hstate (.inr hfree)
  | more_exact request pack reused =>
    simp only [hstage, Option.some.injEq] at h
    have hholds : call.stage.holds = some pack := by rw [hstage]; rfl
    exact h ▸ .with_pack fun state hstate => takes_more_reuse (.inl hholds) (takes_more_semantic hstate (.inl hholds))
  | more_semantic request pack reused =>
    simp only [hstage, Option.some.injEq] at h
    have hholds : call.stage.holds = some pack := by rw [hstage]; rfl
    exact h ▸ .with_pack fun state hstate => takes_more_reuse (.inl hholds) (takes_more_check hstate (.inl hholds))
  | more_search request pack =>
    simp only [hstage, Option.some.injEq] at h
    have hholds : call.stage.holds = some pack := by rw [hstage]; rfl
    have hasks : call.stage.asks = some (pack, request.max_tokens) := by rw [hstage]; rfl
    refine h ▸ .with_pack fun state hpack => ?_
    unfold more_search
    dsimp only
    split
    · exact takes_more_charge hpack hasks hholds
    · refine .await _ (by simp) ?_ ?_
      · exact fun ref href => .inl (by rw [hholds]; exact href)
      · exact fun ref tokens htokens => .inl (by rw [hasks]; exact htokens)
  | more_hydrate request pack hits =>
    simp only [hstage, Option.some.injEq] at h
    have hholds : call.stage.holds = some pack := by rw [hstage]; rfl
    have hasks : call.stage.asks = some (pack, request.max_tokens) := by rw [hstage]; rfl
    exact h ▸ .with_pack fun state hpack => takes_more_charge hpack hasks hholds
  | open_hydrate request pack card =>
    simp only [hstage, Option.some.injEq] at h
    exact h ▸ .with_pack fun state _ => takes_open_hydrate
  | open_lock request pack card body =>
    simp only [hstage] at h
    exact hlocked h fun hfree state hpack => takes_open_locked hpack hfree
  | expand_active request =>
    simp only [hstage, Option.some.injEq] at h
    exact h ▸ takes_expand_active
  | expand_seeds expansion =>
    simp only [hstage, Option.some.injEq] at h
    exact h ▸ takes_expand_tier
  | expand_edges expansion walk =>
    simp only [hstage, Option.some.injEq] at h
    exact h ▸ takes_expand_edges
  | expand_nodes expansion walk neighbor_ids =>
    simp only [hstage, Option.some.injEq] at h
    exact h ▸ takes_expand_tier
  | expand_lock expansion pack response =>
    simp only [hstage] at h
    exact hlocked h fun hfree state hpack =>
      .expanded expansion response _ _ _ _ state hstage hfree hpack rfl rfl rfl
  | writing row => simp [hstage] at h
  | done => simp [hstage] at h

/-- A stage in which a call has nothing of its pack. -/
structure Stage.Free (stage : Stage) : Prop where
  uncharged : ∀ row, stage = .writing row → row.reply.charge = none
  holds : stage.holds = none
  asks : stage.asks = none

theorem free_begin_call (s : Server) (requester : Requester) (request : Request) :
    begin_call s requester request = .raise ∨
      ∃ stage : Stage, begin_call s requester request = .await stage ∧ stage.Free := by
  have herror : ∀ event message, ∃ stage : Stage, write_error event message = .await stage ∧ stage.Free := by
    refine fun event message => ⟨_, rfl, ?_, rfl, rfl⟩
    intro row h
    rw [Stage.writing.injEq] at h
    rw [← h]
    rfl
  have hidle : ∀ stage : Stage, (∀ row, stage ≠ .writing row) → stage.holds = none → stage.asks = none → stage.Free :=
    fun stage hwrites hholds hasks => ⟨fun row h => absurd h (hwrites row), hholds, hasks⟩
  unfold begin_call
  cases request with
  | create_pack request id => exact .inr ⟨_, rfl, hidle _ (by simp) rfl rfl⟩
  | expand request => exact .inr ⟨_, rfl, hidle _ (by simp) rfl rfl⟩
  | read_pack id =>
    dsimp only
    split
    · unfold with_pack
      split
      · exact .inr ⟨_, rfl, hidle _ (by simp) rfl rfl⟩
      · exact .inl rfl
    · exact .inr (herror _ _)
  | request_more request =>
    dsimp only
    split
    · exact .inr ⟨_, rfl, hidle _ (by simp) rfl rfl⟩
    · exact .inr (herror _ _)
  | open_evidence request =>
    dsimp only
    split
    · unfold with_pack
      split
      · unfold open_card
        split
        · exact .inr ⟨_, rfl, hidle _ (by simp) rfl rfl⟩
        · exact .inr (herror _ _)
      · exact .inl rfl
    · exact .inr (herror _ _)

end Spec

end AgenticKb.ContextBroker

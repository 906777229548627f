import AgenticKb.Properties.PackBudget
import AgenticKb.Properties.PackContents

open AgenticKb.Lib

namespace AgenticKb.ContextBroker

/-- The earlier retrieval of a pack that a question is answered from. -/
def find_answer (deps : BrokerDeps) (semantic : Bool) (history : List PastRetrieval) (normalized_query : String) :
    Option PastRetrieval :=
  if semantic then find_semantic deps history normalized_query else find_exact history normalized_query

/-- The question a `request_more` compares with the earlier ones, and the pack it holds. -/
def Stage.compares : Stage → Option (RequestMoreRequest × Ref)
  | .more_lock request pack | .more_exact request pack _ | .more_semantic request pack _ => some (request, pack)
  | _ => none

/-- A `request_more` that is answered `reused`. -/
structure Reuse where
  requester : Requester
  request : RequestMoreRequest
  pack : Ref
  state : PackState
  semantic : Bool
  reused_evidence_ids : List String
deriving DecidableEq, Repr

section Claims

variable (deps : ServerDeps)

/-- The call is answered `reused` when its await is over. -/
def Call.reuse (s : Server) (call : Call) : Option Reuse :=
  match call.stage.compares, resume_call deps s call with
  | some (request, pack), some (.await (.writing row)) =>
    match s.packs[pack]?, row.reply with
    | some state, .request_more _ .reused reused_evidence_ids _ _ _ => some
        { requester := call.requester
          request
          pack
          state
          semantic := row.event.semantic_reuse
          reused_evidence_ids }
    | _, _ => none
  | _, _ => none

def Event.reuse (s : Server) : Event → Option Reuse
  | .resume i => (s.calls[i]?).bind fun call => call.reuse deps s
  | _ => none

/-- The earlier retrieval that is reused. -/
def Reuse.matched (reuse : Reuse) : Option PastRetrieval :=
  find_answer deps.toBrokerDeps reuse.semantic reuse.state.history (more_normalized deps reuse.request)

/-- What the requester has already: its own list and the pack. -/
def Reuse.excluded (reuse : Reuse) : List String :=
  reuse.request.already_checked_evidence_ids ++ reuse.state.cards.map (·.1)

/-- The cards a retrieval finds for the requester, best first. -/
def Reuse.found (db : Database) (reuse : Reuse) (question : String) : List EvidenceCard :=
  retrieve_cards deps.toBrokerDeps db question reuse.state.build_seq reuse.requester none

/-- What a fresh retrieval for a question would deliver within the request's limits. -/
def Reuse.fresh (db : Database) (reuse : Reuse) (question : String) : List EvidenceCard :=
  (select_cards deps.toBrokerDeps reuse.request.max_tokens reuse.excluded (reuse.found deps db question) 0).1

/-- An answer that is reused withholds nothing: whatever a fresh retrieval for the recorded question would deliver
is among the reused ids. The history keeps a question in its normalized form only; `question` is its text. -/
def ReuseComplete (question : Ref → String → String) (s : Server) (event : Event) : Prop :=
  ∀ reuse, event.reuse deps s = some reuse → ∃ entry, reuse.matched deps = some entry ∧
    ∀ card ∈ reuse.fresh deps s.db (question reuse.pack entry.normalized_query),
      card.evidence_id ∈ reuse.reused_evidence_ids

/-- Where an answer is reused, the best card for the recorded question that its requester does not have yet costs
more than the request allows, or there is none. -/
def NothingNew (question : Ref → String → String) (s : Server) (event : Event) : Prop :=
  ∀ reuse, event.reuse deps s = some reuse → ∀ entry, reuse.matched deps = some entry →
    ∀ card, (reuse.found deps s.db (question reuse.pack entry.normalized_query)).find?
        (fun card => !reuse.excluded.contains card.evidence_id) = some card →
      reuse.request.max_tokens < card_tokens deps.toBrokerDeps card

end Claims

section Selection

variable {deps : BrokerDeps} {max_tokens tokens : Nat} {excluded : List String} {cards : List EvidenceCard}

theorem not_excluded_of_mem_select_cards {card : EvidenceCard}
    (h : card ∈ (select_cards deps max_tokens excluded cards tokens).1) : card.evidence_id ∉ excluded := by
  induction cards generalizing tokens with
  | nil => simp [select_cards] at h
  | cons first cards ih =>
    unfold select_cards at h
    split at h
    · exact ih h
    · rename_i hnew
      split at h
      · simp at h
      · cases List.mem_cons.1 h with
        | inl heq => simpa [heq] using hnew
        | inr hrest => exact ih hrest

/-- Nothing is selected exactly if the best new card does not fit. -/
theorem select_cards_eq_nil_iff : (select_cards deps max_tokens excluded cards tokens).1 = [] ↔
    ∀ card, cards.find? (fun card => !excluded.contains card.evidence_id) = some card →
      max_tokens < tokens + card_tokens deps card := by
  induction cards with
  | nil => simp [select_cards]
  | cons first cards ih =>
    unfold select_cards
    by_cases hold : excluded.contains first.evidence_id = true
    · rw [if_pos hold, List.find?_cons_of_neg (by simpa using hold), ih]
    · rw [if_neg hold, List.find?_cons_of_pos (by simpa using hold)]
      split
      · rename_i hover
        simp [hover]
      · rename_i hfits
        simp [hfits]

end Selection

/-- The earlier answer that a call has found and whose ids it reads. -/
def Stage.reuses : Stage → Option (RequestMoreRequest × Ref × Bool × List String)
  | .more_exact request pack reused => some (request, pack, false, reused)
  | .more_semantic request pack reused => some (request, pack, true, reused)
  | _ => none

theorem mem_of_find_semantic {deps : BrokerDeps} {history : List PastRetrieval} {normalized_query : String}
    {entry : PastRetrieval} (h : find_semantic deps history normalized_query = some entry) : entry ∈ history := by
  unfold find_semantic at h
  refine foldl_invariant (I := fun best : Option PastRetrieval × Rat => ∀ entry, best.1 = some entry → entry ∈ history)
    ?_ (by simp) entry h
  intro best candidate hcandidate hbest entry hentry
  dsimp only at hentry
  split at hentry
  · exact Option.some.inj hentry ▸ hcandidate
  · exact hbest entry hentry

theorem mem_of_find_answer {deps : BrokerDeps} {semantic : Bool} {history : List PastRetrieval}
    {normalized_query : String} {entry : PastRetrieval}
    (h : find_answer deps semantic history normalized_query = some entry) : entry ∈ history := by
  unfold find_answer at h
  split at h
  · exact mem_of_find_semantic h
  · exact List.mem_of_find?_eq_some h

/-- Every recorded answer stands for cards of its pack, also of the pack as a failing call gives it back, and a
call that reads an earlier answer still finds it. -/
structure Recorded (deps : ServerDeps) (s : Server) : Prop where
  recorded : ∀ pack ∈ s.packs, ∀ entry ∈ pack.history, ∀ id ∈ entry.evidence_ids, id ∈ pack.cards.map (·.1)
  refunds : ∀ call ∈ s.calls, ∀ snapshot ∈ call.refund, ∀ entry ∈ snapshot.history_entries,
    ∀ id ∈ entry.evidence_ids, id ∈ snapshot.cards.map (·.1)
  found : ∀ call ∈ s.calls, ∀ request ref semantic reused, call.stage.reuses = some (request, ref, semantic, reused) →
    ∃ (pack : PackState) (entry : PastRetrieval), s.packs[ref]? = some pack ∧
      find_answer deps.toBrokerDeps semantic pack.history (more_normalized deps request) = some entry ∧
        entry.evidence_ids = reused

theorem recorded_start (deps : ServerDeps) (db : Database) : Recorded deps (.start db) :=
  ⟨by simp [Server.start], by simp [Server.start], by simp [Server.start]⟩

section Actions

variable {deps : ServerDeps} {s : Server} {requester : Requester} {request : RequestMoreRequest} {pack : Ref}
  {state : PackState}

/-- What a call that holds its pack's lock may do with the answers the pack has. -/
inductive Answers (deps : ServerDeps) (requester : Requester) (request : RequestMoreRequest) (pack : Ref)
    (state : PackState) : Action → Prop
  /-- It answers with ids of the answer it found. -/
  | reused (semantic : Bool) (entry : PastRetrieval) (allowed : List String) (row : Writing)
      (hentry : find_answer deps.toBrokerDeps semantic state.history (more_normalized deps request) = some entry)
      (hallowed : ∀ id ∈ allowed, id ∈ entry.evidence_ids) (hsemantic : row.event.semantic_reuse = semantic)
      (hrefund : row.refund = none) (hreply : row.reply = .request_more pack .reused allowed [] 0 none) :
      Answers deps requester request pack state (.await (.writing row))
  /-- It reads which of the ids its requester may see. -/
  | reads (semantic : Bool) (entry : PastRetrieval) (stage : Stage)
      (hentry : find_answer deps.toBrokerDeps semantic state.history (more_normalized deps request) = some entry)
      (hstage : stage.reuses = some (request, pack, semantic, entry.evidence_ids)) :
      Answers deps requester request pack state (.await stage)
  /-- It refuses. -/
  | refused (status : EventStatus) (reason : Option String) (row : Writing) (hstatus : status ≠ .reused)
      (hrefund : row.refund = none) (hreply : row.reply = .request_more pack status [] [] 0 reason) :
      Answers deps requester request pack state (.await (.writing row))
  /-- It retrieves. -/
  | searches : Answers deps requester request pack state (.await (.more_search request pack))
  | raise : Answers deps requester request pack state .raise

theorem answers_more_reused {semantic : Bool} {entry : PastRetrieval} {allowed : List String}
    (hentry : find_answer deps.toBrokerDeps semantic state.history (more_normalized deps request) = some entry)
    (hallowed : ∀ id ∈ allowed, id ∈ entry.evidence_ids) : Answers deps requester request pack state
      (more_reused deps requester request pack state allowed semantic) := by
  unfold more_reused
  cases more_event deps requester request state .reused allowed [] with
  | none => exact .raise
  | some event => exact .reused semantic entry allowed _ hentry hallowed rfl rfl rfl

theorem answers_more_refused {status : EventStatus} {reason : Option String} (hstatus : status ≠ .reused) :
    Answers deps requester request pack state (more_refused deps requester request pack state status reason) := by
  unfold more_refused
  cases more_event deps requester request state status [] [] with
  | none => exact .raise
  | some event => exact .refused status reason _ hstatus rfl rfl

theorem answers_more_check : Answers deps requester request pack state
    (more_check deps s requester request pack state) := by
  unfold more_check
  dsimp only
  split
  · exact answers_more_refused (by simp)
  · split
    · exact answers_more_refused (by simp)
    · split
      · exact answers_more_refused (by simp)
      · exact .searches

theorem answers_more_semantic : Answers deps requester request pack state
    (more_semantic deps s requester request pack state) := by
  unfold more_semantic
  split
  · rename_i entry hentry
    split
    · exact answers_more_reused (show find_answer _ true _ _ = some entry from hentry) (by simp)
    · exact .reads true entry _ hentry rfl
  · exact answers_more_check

theorem answers_more_exact : Answers deps requester request pack state
    (more_exact deps s requester request pack state) := by
  unfold more_exact
  split
  · rename_i entry hentry
    split
    · exact answers_more_reused (show find_answer _ false _ _ = some entry from hentry) (by simp)
    · exact .reads false entry _ hentry rfl
  · exact answers_more_semantic

theorem mem_of_authorized_reuse {reused allowed : List String}
    (h : authorized_reuse deps s requester state reused = some allowed) : ∀ id ∈ allowed, id ∈ reused := by
  intro id hid
  unfold authorized_reuse at h
  obtain ⟨ids, -, rfl⟩ := Option.map_eq_some_iff.1 h
  exact List.mem_of_mem_filter hid

theorem answers_more_reuse {semantic : Bool} {entry : PastRetrieval} {otherwise : Action}
    (hentry : find_answer deps.toBrokerDeps semantic state.history (more_normalized deps request) = some entry)
    (hotherwise : Answers deps requester request pack state otherwise) : Answers deps requester request pack state
      (more_reuse deps s requester request pack state entry.evidence_ids semantic otherwise) := by
  unfold more_reuse
  split
  · exact .raise
  · exact hotherwise
  · rename_i allowed _ hallowed
    exact answers_more_reused hentry (mem_of_authorized_reuse hallowed)

theorem answers_with_pack {run : PackState → Action} (hpack : s.packs[pack]? = some state)
    (h : Answers deps requester request pack state (run state)) :
    Answers deps requester request pack state (with_pack s pack run) := by
  rw [with_pack, hpack]
  exact h

/-- What a call does that compares its question with the earlier ones. -/
theorem answers_resume_call (hrecorded : Recorded deps s) {call : Call} (hmem : call ∈ s.calls)
    (hcompares : call.stage.compares = some (request, pack)) (hpack : s.packs[pack]? = some state) {action : Action}
    (haction : resume_call deps s call = some action) :
    Answers deps call.requester request pack state action := by
  have hfound := hrecorded.found call hmem
  cases hstage : call.stage with
  | more_lock request' pack' =>
    simp only [hstage, Stage.compares, Option.some.injEq, Prod.mk.injEq] at hcompares
    obtain ⟨rfl, rfl⟩ := hcompares
    simp only [resume_call, hstage] at haction
    split at haction
    · simp at haction
    · rw [← Option.some.inj haction]
      exact answers_with_pack hpack answers_more_exact
  | more_exact request' pack' reused =>
    simp only [hstage, Stage.compares, Option.some.injEq, Prod.mk.injEq] at hcompares
    obtain ⟨rfl, rfl⟩ := hcompares
    obtain ⟨found, entry, hfound, hentry, hids⟩ := hfound request' pack' false reused (by rw [hstage]; rfl)
    rw [hpack, Option.some.injEq] at hfound
    subst hfound
    simp only [resume_call, hstage, Option.some.injEq] at haction
    rw [← haction, ← hids]
    exact answers_with_pack hpack (answers_more_reuse hentry answers_more_semantic)
  | more_semantic request' pack' reused =>
    simp only [hstage, Stage.compares, Option.some.injEq, Prod.mk.injEq] at hcompares
    obtain ⟨rfl, rfl⟩ := hcompares
    obtain ⟨found, entry, hfound, hentry, hids⟩ := hfound request' pack' true reused (by rw [hstage]; rfl)
    rw [hpack, Option.some.injEq] at hfound
    subst hfound
    simp only [resume_call, hstage, Option.some.injEq] at haction
    rw [← haction, ← hids]
    exact answers_with_pack hpack (answers_more_reuse hentry answers_more_check)
  | _ => simp [hstage, Stage.compares] at hcompares

/-- The stage reads no earlier answer and gives nothing back. -/
structure Stage.Plain (stage : Stage) : Prop where
  reuses : stage.reuses = none
  refund : ∀ row, stage = .writing row → row.refund = none

/-- What the action awaits is plain. What it records are cards that it registers, and a new pack's row gives nothing
back. -/
def Action.Plain : Action → Prop
  | .await stage => stage.Plain
  | .make pack row => row.refund = none ∧ ∀ entry ∈ pack.history, ∀ id ∈ entry.evidence_ids, id ∈ pack.cards.map (·.1)
  | .charge _ cards recorded _ => ∀ entry ∈ recorded, entry.evidence_ids = cards.map (·.evidence_id)
  | .raise => True

theorem plain_row {row : Writing} (h : row.refund = none) : Action.Plain (.await (.writing row)) := by
  refine ⟨rfl, ?_⟩
  intro row' hrow
  rw [Stage.writing.injEq] at hrow
  exact hrow ▸ h

theorem plain_idle {stage : Stage} (hreuses : stage.reuses = none) (hwrites : ∀ row, stage ≠ .writing row) :
    Action.Plain (.await stage) :=
  ⟨hreuses, fun row h => absurd h (hwrites row)⟩

theorem plain_with_pack {pack : Ref} {run : PackState → Action} (h : ∀ state, (run state).Plain) :
    (with_pack s pack run).Plain := by
  unfold with_pack
  split
  · exact h _
  · trivial

theorem plain_make_pack {asked : CreatePackRequest} {context_pack_id : String} {active : ActiveVersion}
    {found : List EvidenceCard} : (make_pack deps s requester asked context_pack_id active found).Plain := by
  refine ⟨rfl, ?_⟩
  intro entry hentry id hid
  rw [List.mem_singleton.1 hentry] at hid
  exact (Dict.mem_keys_foldl_set (fun card : EvidenceCard => card.evidence_id) fun card => card).2 (.inr hid)

theorem plain_more_charge {cards : List EvidenceCard} :
    (more_charge deps requester request pack state cards).Plain := by
  unfold more_charge
  dsimp only
  split
  · intro entry hentry
    rw [← Option.some.inj hentry]
  · trivial

theorem plain_expand_found {expansion : Expansion} {walk : TierWalk} :
    (expand_found deps requester expansion walk).Plain := by
  unfold expand_found
  dsimp only
  split
  · exact plain_idle rfl (by simp)
  · exact plain_row rfl

theorem plain_expand_tier {expansion : Expansion} {walk : TierWalk} :
    (expand_tier deps requester expansion walk).Plain := by
  unfold expand_tier
  split
  · exact plain_idle rfl (by simp)
  · split
    · dsimp only
      split
      · exact plain_expand_found
      · exact plain_idle rfl (by simp)
    · exact plain_expand_found

/-- A call that compares no questions awaits a plain stage. -/
theorem plain_resume_call {call : Call} (hcompares : call.stage.compares = none) {action : Action}
    (haction : resume_call deps s call = some action) : action.Plain := by
  cases hstage : call.stage with
  | create_active request id =>
    simp only [resume_call, hstage, Option.some.injEq] at haction
    rw [← haction, create_active]
    split
    · exact plain_row rfl
    · exact plain_idle rfl (by simp)
  | create_search request id active =>
    simp only [resume_call, hstage, Option.some.injEq] at haction
    rw [← haction, create_search]
    split
    · exact plain_make_pack
    · exact plain_idle rfl (by simp)
  | create_hydrate request id active hits =>
    simp only [resume_call, hstage, Option.some.injEq] at haction
    rw [← haction, create_hydrate]
    split
    · exact plain_idle rfl (by simp)
    · exact plain_make_pack
  | create_symbols request id active hits artifacts =>
    simp only [resume_call, hstage, Option.some.injEq] at haction
    rw [← haction]
    exact plain_make_pack
  | read_hydrate pack all_cards =>
    simp only [resume_call, hstage, Option.some.injEq] at haction
    rw [← haction]
    exact plain_with_pack fun state => plain_row rfl
  | more_lock request pack => simp [hstage, Stage.compares] at hcompares
  | more_exact request pack reused => simp [hstage, Stage.compares] at hcompares
  | more_semantic request pack reused => simp [hstage, Stage.compares] at hcompares
  | more_search request pack =>
    simp only [resume_call, hstage, Option.some.injEq] at haction
    rw [← haction]
    apply plain_with_pack
    intro state
    unfold more_search
    dsimp only
    split
    · exact plain_more_charge
    · exact plain_idle rfl (by simp)
  | more_hydrate request pack hits =>
    simp only [resume_call, hstage, Option.some.injEq] at haction
    rw [← haction]
    exact plain_with_pack fun state => plain_more_charge
  | open_hydrate request pack card =>
    simp only [resume_call, hstage, Option.some.injEq] at haction
    rw [← haction]
    apply plain_with_pack
    intro state
    unfold open_hydrate
    split
    · exact plain_idle rfl (by simp)
    · exact plain_row rfl
  | open_lock request pack card body =>
    simp only [resume_call, hstage] at haction
    split at haction
    · simp at haction
    · rw [← Option.some.inj haction]
      apply plain_with_pack
      intro state
      unfold open_locked
      dsimp only
      split
      · exact plain_row rfl
      · split
        · exact plain_row rfl
        · simp [Action.Plain]
  | expand_active request =>
    simp only [resume_call, hstage, Option.some.injEq] at haction
    rw [← haction, expand_active]
    split
    · exact plain_row rfl
    · dsimp only
      split
      · exact plain_row rfl
      · exact plain_idle rfl (by simp)
  | expand_seeds expansion =>
    simp only [resume_call, hstage, Option.some.injEq] at haction
    rw [← haction]
    exact plain_expand_tier
  | expand_edges expansion walk =>
    simp only [resume_call, hstage, Option.some.injEq] at haction
    rw [← haction, expand_edges]
    dsimp only
    split
    · exact plain_expand_tier
    · exact plain_idle rfl (by simp)
  | expand_nodes expansion walk neighbor_ids =>
    simp only [resume_call, hstage, Option.some.injEq] at haction
    rw [← haction]
    exact plain_expand_tier
  | expand_lock expansion pack response =>
    simp only [resume_call, hstage] at haction
    split at haction
    · simp at haction
    · rw [← Option.some.inj haction]
      exact plain_with_pack fun state => by simp [expand_locked, Action.Plain]
  | writing row => simp [resume_call, hstage] at haction
  | done => simp [resume_call, hstage] at haction

theorem plain_begin_call {asked : Request} {stage : Stage} (h : begin_call s requester asked = .await stage) :
    stage.Plain := by
  have haction : (begin_call s requester asked).Plain := by
    unfold begin_call
    cases asked with
    | create_pack request id => exact plain_idle rfl (by simp)
    | expand request => exact plain_idle rfl (by simp)
    | read_pack id =>
      dsimp only
      split
      · exact plain_with_pack fun state => plain_idle rfl (by simp)
      · exact plain_row rfl
    | request_more request =>
      dsimp only
      split
      · exact plain_idle rfl (by simp)
      · exact plain_row rfl
    | open_evidence request =>
      dsimp only
      split
      · apply plain_with_pack
        intro state
        unfold open_card
        split
        · exact plain_idle rfl (by simp)
        · exact plain_row rfl
      · exact plain_row rfl
  rw [h] at haction
  exact haction

theorem plain_of_leaves {call : Call} {stage : Stage} (h : call.Leaves stage) : stage.Plain := by
  cases h with
  | inl hdone => exact ⟨by rw [hdone]; rfl, by simp [hdone]⟩
  | inr herror =>
    have hrow : (unexpected_error call.requester call.tool_name).refund = none := rfl
    rw [herror]
    exact plain_row hrow

end Actions

section Step

variable {deps : ServerDeps} {s s' : Server}

/-- What a stage of a call has to keep, for the packs as they are. -/
def Stage.Backed (deps : ServerDeps) (packs : List PackState) (call : Call) : Prop :=
  (∀ snapshot ∈ call.refund, ∀ entry ∈ snapshot.history_entries,
    ∀ id ∈ entry.evidence_ids, id ∈ snapshot.cards.map (·.1)) ∧
  ∀ request ref semantic reused, call.stage.reuses = some (request, ref, semantic, reused) →
    ∃ (pack : PackState) (entry : PastRetrieval), packs[ref]? = some pack ∧
      find_answer deps.toBrokerDeps semantic pack.history (more_normalized deps request) = some entry ∧
        entry.evidence_ids = reused

theorem Recorded.backed (h : Recorded deps s) : ∀ call ∈ s.calls, Stage.Backed deps s.packs call :=
  fun call hcall => ⟨h.refunds call hcall, h.found call hcall⟩

theorem Recorded.of_backed
    (hrecorded : ∀ pack ∈ s.packs, ∀ entry ∈ pack.history, ∀ id ∈ entry.evidence_ids, id ∈ pack.cards.map (·.1))
    (hbacked : ∀ call ∈ s.calls, Stage.Backed deps s.packs call) : Recorded deps s :=
  ⟨hrecorded, fun call hcall => (hbacked call hcall).1, fun call hcall => (hbacked call hcall).2⟩

theorem Stage.Plain.backed {stage : Stage} (h : stage.Plain) (packs : List PackState) (call : Call) :
    Stage.Backed deps packs { call with stage } := by
  refine ⟨?_, ?_⟩
  · intro snapshot hsnapshot
    unfold Call.refund at hsnapshot
    dsimp only at hsnapshot
    split at hsnapshot
    · rename_i row
      rw [h.refund row rfl] at hsnapshot
      simp at hsnapshot
    · simp at hsnapshot
  · intro request ref semantic reused hreuses
    rw [h.reuses] at hreuses
    simp at hreuses

/-- A call that reads an earlier answer holds its pack's lock. -/
theorem Stage.holds_of_reuses {stage : Stage} {request : RequestMoreRequest} {ref : Ref} {semantic : Bool}
    {reused : List String} (h : stage.reuses = some (request, ref, semantic, reused)) : stage.holds = some ref := by
  cases stage with
  | more_exact request pack reused =>
    simp only [Stage.reuses, Option.some.injEq, Prod.mk.injEq] at h
    rw [← h.2.1]
    rfl
  | more_semantic request pack reused =>
    simp only [Stage.reuses, Option.some.injEq, Prod.mk.injEq] at h
    rw [← h.2.1]
    rfl
  | _ => simp [Stage.reuses] at h

/-- The other calls keep what they have if the pack that changes is locked by none of them. -/
theorem Stage.Backed.of_set {packs : List PackState} {call : Call} {ref : Ref} {pack : PackState}
    (h : Stage.Backed deps packs call) (hlock : call.stage.holds ≠ some ref) :
    Stage.Backed deps (packs.set ref pack) call := by
  refine ⟨h.1, ?_⟩
  intro request ref' semantic reused hreuses
  have hne : ref ≠ ref' := fun heq => hlock (heq ▸ Stage.holds_of_reuses hreuses)
  rw [List.getElem?_set_ne hne]
  exact h.2 request ref' semantic reused hreuses

/-- A pack that is made is nobody's yet. -/
theorem Stage.Backed.of_concat {packs : List PackState} {call : Call} {pack : PackState}
    (h : Stage.Backed deps packs call) : Stage.Backed deps (packs ++ [pack]) call := by
  refine ⟨h.1, ?_⟩
  intro request ref semantic reused hreuses
  obtain ⟨found, entry, hfound, hentry⟩ := h.2 request ref semantic reused hreuses
  exact ⟨found, entry, getElem?_of_concat hfound, hentry⟩

/-- Without its pack a call raises. -/
theorem raises_of_unknown {call : Call} {request : RequestMoreRequest} {ref : Ref} {action : Action}
    (hcompares : call.stage.compares = some (request, ref)) (hpack : s.packs[ref]? = none)
    (haction : resume_call deps s call = some action) : action = .raise := by
  cases hstage : call.stage with
  | more_lock request' pack =>
    simp only [hstage, Stage.compares, Option.some.injEq, Prod.mk.injEq] at hcompares
    simp only [resume_call, hstage, with_pack, hcompares.2, hpack] at haction
    split at haction
    · simp at haction
    · exact (Option.some.inj haction).symm
  | more_exact request' pack reused =>
    simp only [hstage, Stage.compares, Option.some.injEq, Prod.mk.injEq] at hcompares
    simp only [resume_call, hstage, with_pack, hcompares.2, hpack, Option.some.injEq] at haction
    exact haction.symm
  | more_semantic request' pack reused =>
    simp only [hstage, Stage.compares, Option.some.injEq, Prod.mk.injEq] at hcompares
    simp only [resume_call, hstage, with_pack, hcompares.2, hpack, Option.some.injEq] at haction
    exact haction.symm
  | _ => simp [hstage, Stage.compares] at hcompares

/-- What a call awaits next is backed by the packs as they are. -/
theorem backed_of_resume_call (hrecorded : Recorded deps s) {call : Call} (hmem : call ∈ s.calls) {stage : Stage}
    (haction : resume_call deps s call = some (.await stage)) :
    Stage.Backed deps s.packs { call with stage } := by
  cases hcompares : call.stage.compares with
  | none =>
    have hplain : stage.Plain := plain_resume_call hcompares haction
    exact hplain.backed s.packs call
  | some compared =>
    obtain ⟨request, ref⟩ := compared
    cases hpack : s.packs[ref]? with
    | none =>
      have hraise := raises_of_unknown hcompares hpack haction
      simp at hraise
    | some state =>
      cases answers_resume_call hrecorded hmem hcompares hpack haction with
      | reused semantic entry allowed row hentry hallowed hsemantic hrefund hreply =>
        exact (plain_row hrefund).backed s.packs call
      | reads semantic entry stage hentry hstage =>
        refine ⟨?_, ?_⟩
        · intro snapshot hsnapshot
          cases stage with
          | writing row => simp [Stage.reuses] at hstage
          | _ => simp [Call.refund] at hsnapshot
        · intro request' ref' semantic' reused hreuses
          dsimp only at hreuses
          rw [hstage, Option.some.injEq, Prod.mk.injEq, Prod.mk.injEq, Prod.mk.injEq] at hreuses
          obtain ⟨rfl, rfl, rfl, rfl⟩ := hreuses
          exact ⟨state, entry, hpack, hentry, rfl⟩
      | refused status reason row hstatus hrefund hreply => exact (plain_row hrefund).backed s.packs call
      | searches => exact Stage.Plain.backed ⟨rfl, by simp⟩ s.packs call

/-- A call that makes a pack or charges one compares no questions. -/
theorem plain_of_changes (hrecorded : Recorded deps s) {call : Call} (hmem : call ∈ s.calls) {action : Action}
    (haction : resume_call deps s call = some action) (hchanges : ∀ stage, action ≠ .await stage) : action.Plain := by
  cases hcompares : call.stage.compares with
  | none => exact plain_resume_call hcompares haction
  | some compared =>
    obtain ⟨request, ref⟩ := compared
    cases hpack : s.packs[ref]? with
    | none => rw [raises_of_unknown hcompares hpack haction]; trivial
    | some state =>
      cases answers_resume_call hrecorded hmem hcompares hpack haction with
      | raise => trivial
      | _ => exact absurd rfl (hchanges _)

/-- One pack changes under a lock that one call holds. -/
private theorem Recorded.of_set (h : Recorded deps s) {i : Nat} {call : Call} {ref : Ref}
    {pack : PackState} {stage : Stage} (hcall : s.calls[i]? = some call)
    (halone : ∀ (j : Nat) (other : Call), s.calls[j]? = some other → j ≠ i → other.stage.holds ≠ some ref)
    (hpack : ∀ entry ∈ pack.history, ∀ id ∈ entry.evidence_ids, id ∈ pack.cards.map (·.1))
    (hstage : Stage.Backed deps (s.packs.set ref pack) { call with stage })
    (hpacks : s'.packs = s.packs.set ref pack)
    (hcalls : s'.calls = s.calls.modify i fun call => { call with stage }) : Recorded deps s' := by
  apply Recorded.of_backed
  · rw [hpacks]
    intro found hfound
    cases List.mem_or_eq_of_mem_set hfound with
    | inl hold => exact h.recorded found hold
    | inr hset => exact hset ▸ hpack
  · rw [hpacks, hcalls]
    refine forall_mem_modify ?_ h.backed hcall hstage
    intro j other hne hother hbacked
    exact hbacked.of_set (halone j other hother hne)

/-- Every step keeps the answers covered. -/
theorem Recorded.step (hcon : Consistent s) (h : Recorded deps s) (hstep : PackStep deps s s') : Recorded deps s' := by
  cases hstep with
  | idle hpacks hcalls =>
    apply Recorded.of_backed
    · rw [hpacks]
      exact h.recorded
    · rw [hpacks, hcalls]
      exact h.backed
  | arrive hpacks requester request stage hstage hcalls =>
    have hplain : stage.Plain := by
      cases hstage with
      | inl hbegin => exact plain_begin_call hbegin
      | inr herror =>
        have hleaves : Call.Leaves ⟨requester, request.tool_name, stage⟩ stage := .inr herror
        exact plain_of_leaves hleaves
    apply Recorded.of_backed
    · rw [hpacks]
      exact h.recorded
    · rw [hpacks, hcalls]
      intro call hcall
      cases List.mem_append.1 hcall with
      | inl hold => exact h.backed call hold
      | inr hnew =>
        rw [List.mem_singleton.1 hnew]
        exact hplain.backed s.packs ⟨requester, request.tool_name, stage⟩
  | move hpacks i call stage hcall haction hcalls =>
    apply Recorded.of_backed
    · rw [hpacks]
      exact h.recorded
    · rw [hpacks, hcalls]
      apply forall_mem_modify (fun _ _ _ _ hbacked => hbacked) h.backed hcall
      exact backed_of_resume_call h (List.mem_of_getElem? hcall) haction
  | leave hpacks i call stage hcall hleaves hcalls =>
    apply Recorded.of_backed
    · rw [hpacks]
      exact h.recorded
    · rw [hpacks, hcalls]
      apply forall_mem_modify (fun _ _ _ _ hbacked => hbacked) h.backed hcall
      exact (plain_of_leaves hleaves).backed s.packs call
  | make i call pack row hcall haction hpacks hcalls =>
    have hmade : Action.Plain (.make pack row) := plain_of_changes h (List.mem_of_getElem? hcall) haction (by simp)
    obtain ⟨hrefund, hcards⟩ := hmade
    apply Recorded.of_backed
    · rw [hpacks]
      intro found hfound
      cases List.mem_append.1 hfound with
      | inl hold => exact h.recorded found hold
      | inr hnew => exact List.mem_singleton.1 hnew ▸ hcards
    · rw [hpacks, hcalls]
      apply forall_mem_modify (fun _ _ _ _ hbacked => hbacked.of_concat) h.backed hcall
      have hplain : Stage.Plain (.writing row) := plain_row hrefund
      exact hplain.backed _ call
  | charge i call charge cards recorded row state hcall haction hpack hpacks hcalls =>
    have hrecorded : ∀ entry ∈ recorded, entry.evidence_ids = cards.map (·.evidence_id) :=
      plain_of_changes h (List.mem_of_getElem? hcall) haction (by simp)
    have hold := h.recorded state (List.mem_of_getElem? hpack)
    refine h.of_set hcall (fun j other => (takes_resume_call haction).charge_alone hcon hcall) ?_ ?_ hpacks hcalls
    · intro entry hentry id hid
      apply (Dict.mem_keys_foldl_set (fun card : EvidenceCard => card.evidence_id) fun card => card).2
      cases List.mem_append.1 hentry with
      | inl hmem => exact .inl (hold entry hmem id hid)
      | inr hnew =>
        rw [hrecorded entry (Option.mem_toList.1 hnew)] at hid
        exact .inr hid
    · refine ⟨?_, ?_⟩
      · intro snapshot hsnapshot
        rw [← Option.some.inj hsnapshot]
        exact hold
      · simp [Stage.reuses]
  | restore i call row charge snapshot state stage hcall hstage hcharge hrefund hpack hleaves hpacks hcalls =>
    have hmem : call ∈ s.calls := List.mem_of_getElem? hcall
    have hholds := (hcon.backed call hmem charge (by rw [Call.pending, hstage]; exact hcharge)).2.1
    refine h.of_set hcall ?_ ?_ ((plain_of_leaves hleaves).backed _ call) hpacks hcalls
    · exact fun j other hother hne hlock => hne (hcon.exclusive j i other call charge.pack hother hcall hlock hholds)
    · exact h.refunds call hmem snapshot (by rw [Call.refund, hstage]; exact hrefund)

/-- What is reused is an earlier answer that the pack holds. -/
theorem reuse_of_recorded (hrecorded : Recorded deps s) {event : Event} {reuse : Reuse}
    (hreuse : event.reuse deps s = some reuse) : ∃ entry, reuse.matched deps = some entry ∧
      ∀ id ∈ reuse.reused_evidence_ids, id ∈ reuse.state.cards.map (·.1) := by
  obtain ⟨call, hmem, hcall⟩ : ∃ call, call ∈ s.calls ∧ call.reuse deps s = some reuse := by
    cases event with
    | resume i =>
      obtain ⟨call, hcall, hreuse⟩ := Option.bind_eq_some_iff.1 hreuse
      exact ⟨call, List.mem_of_getElem? hcall, hreuse⟩
    | _ => simp [Event.reuse] at hreuse
  unfold Call.reuse at hcall
  split at hcall
  · rename_i request ref row hcompares haction
    split at hcall
    · rename_i state pack ids new tokens reason hpack hreply
      rw [← Option.some.inj hcall]
      -- the row is that of an answer from an earlier retrieval
      generalize hawait : Action.await (.writing row) = action at haction
      cases answers_resume_call hrecorded hmem hcompares hpack haction with
      | reused semantic entry allowed row' hentry hallowed hsemantic hrefund hreply' =>
        simp only [Action.await.injEq, Stage.writing.injEq] at hawait
        subst hawait
        simp only [hreply', Reply.request_more.injEq] at hreply
        refine ⟨entry, ?_, ?_⟩
        · simp only [Reuse.matched, hsemantic]
          exact hentry
        · intro id hid
          dsimp only at hid ⊢
          rw [← hreply.2.2.1] at hid
          exact hrecorded.recorded state (List.mem_of_getElem? hpack) entry (mem_of_find_answer hentry) id (hallowed id hid)
      | reads semantic entry stage hentry hstage =>
        simp only [Action.await.injEq] at hawait
        subst hawait
        simp [Stage.reuses] at hstage
      | refused status reason row' hstatus hrefund hreply' =>
        simp only [Action.await.injEq, Stage.writing.injEq] at hawait
        subst hawait
        simp only [hreply', Reply.request_more.injEq] at hreply
        exact absurd hreply.2.1 hstatus
      | searches => simp at hawait
      | raise => simp at hawait
    · simp at hcall
  · simp at hcall

/-- Nothing that is delivered afresh is in the pack, so nothing may be. -/
theorem reuse_complete_iff (hrecorded : Recorded deps s) (question : Ref → String → String) (event : Event) :
    ReuseComplete deps question s event ↔ NothingNew deps question s event := by
  have hfresh : ∀ (reuse : Reuse) (text : String), reuse.fresh deps s.db text = [] ↔
      ∀ card, (reuse.found deps s.db text).find? (fun card => !reuse.excluded.contains card.evidence_id) = some card →
        reuse.request.max_tokens < card_tokens deps.toBrokerDeps card := by
    intro reuse text
    rw [Reuse.fresh, select_cards_eq_nil_iff]
    simp only [Nat.zero_add]
  constructor
  · intro h reuse hreuse entry hmatched
    obtain ⟨entry', hentry', hcomplete⟩ := h reuse hreuse
    rw [hmatched, Option.some.injEq] at hentry'
    subst hentry'
    obtain ⟨-, -, hheld⟩ := reuse_of_recorded hrecorded hreuse
    apply (hfresh reuse _).1
    apply List.eq_nil_iff_forall_not_mem.2
    intro card hcard
    have hexcluded : card.evidence_id ∈ reuse.excluded :=
      List.mem_append_right _ (hheld _ (hcomplete card hcard))
    exact not_excluded_of_mem_select_cards hcard hexcluded
  · intro h reuse hreuse
    obtain ⟨entry, hmatched, -⟩ := reuse_of_recorded hrecorded hreuse
    refine ⟨entry, hmatched, ?_⟩
    rw [(hfresh reuse _).2 (h reuse hreuse entry hmatched)]
    simp

/-- In every run, the answers that are reused withhold nothing if and only if, wherever one is, there is nothing new
that fits. -/
theorem reuse_complete_iff_nothing_new (deps : ServerDeps) (question : Ref → String → String) (db : Database)
    (events : List Event) : Along (Server.step deps) (ReuseComplete deps question) (.start db) events ↔
      Along (Server.step deps) (NothingNew deps question) (.start db) events := by
  have hkept : ∀ (s : Server) (event : Event), Consistent s ∧ Recorded deps s →
      Consistent (s.step deps event) ∧ Recorded deps (s.step deps event) :=
    fun s event h => ⟨h.1.effect (step_effect h.1 event), h.2.step h.1 (pack_step h.1 event)⟩
  constructor
  · intro h
    exact h.imp_of_invariant (I := fun s => Consistent s ∧ Recorded deps s) (fun s event _ hs _ => hkept s event hs)
      (fun s event _ hs hok => (reuse_complete_iff hs.2 question event).1 hok)
      ⟨consistent_start db, recorded_start deps db⟩
  · intro h
    exact h.imp_of_invariant (I := fun s => Consistent s ∧ Recorded deps s) (fun s event _ hs _ => hkept s event hs)
      (fun s event _ hs hok => (reuse_complete_iff hs.2 question event).2 hok)
      ⟨consistent_start db, recorded_start deps db⟩

end Step

section Withheld

/-- The search finds the hub for every query. -/
def hub_search : ServerDeps := { ServerDeps.plain with search := fun _ _ _ _ => [{ artifact_id := 3, score := 1 }] }

/-- The hub is for the platform team; the two public files stay. -/
def hub_database : Database := { repo_database [3] with edges := [] }

def platform_agent : Requester := { subject := "platform-agent", teams := ["platform"] }

def asks (requester : Requester) (question : String) : Event :=
  .begin requester (.request_more { context_pack_id := "p", question, max_tokens := 100 })

/-- An agent that may not see the hub asks first; then one that may asks the same. -/
def withheld_run : List Event :=
  makes_pack 0 "p" 1000 ++ [.resume 0, asks outsider "hub", .resume 1, .resume 1, .resume 1, .resume 1,
    asks platform_agent "hub", .resume 2]

/-- The server before the second agent is answered. -/
def withheld_server : Server := withheld_run.dropLast.foldl (Server.step hub_search) (.start hub_database)

/-- The agent of the platform team is told that there is nothing. -/
theorem reuse_withholds : ¬ Along (Server.step hub_search) (ReuseComplete hub_search fun _ text => text)
    (.start hub_database) withheld_run := by
  have hreused : ((Event.resume 2).reuse hub_search withheld_server).map (fun reuse =>
      (reuse.reused_evidence_ids, (reuse.matched hub_search).map fun entry =>
        (reuse.fresh hub_search withheld_server.db entry.normalized_query).map (·.evidence_id))) =
      some ([], some ["3"]) := by decide +kernel
  obtain ⟨reuse, hreuse, hvalue⟩ := Option.map_eq_some_iff.1 hreused
  simp only [Prod.mk.injEq] at hvalue
  obtain ⟨entry, hmatched, hfresh⟩ := Option.map_eq_some_iff.1 hvalue.2
  have hsplit : withheld_run = withheld_run.dropLast ++ [.resume 2] := rfl
  intro h
  rw [hsplit, along_append] at h
  obtain ⟨entry', hmatched', hcomplete⟩ := h.2.1 reuse hreuse
  rw [hmatched, Option.some.injEq] at hmatched'
  subst hmatched'
  have hcard : "3" ∈ (reuse.fresh hub_search withheld_server.db entry.normalized_query).map (·.evidence_id) := by
    rw [hfresh]
    exact List.mem_singleton_self _
  obtain ⟨card, hmem, -⟩ := List.mem_map.1 hcard
  have hnone := hcomplete card hmem
  rw [hvalue.1] at hnone
  simp at hnone

end Withheld

end AgenticKb.ContextBroker

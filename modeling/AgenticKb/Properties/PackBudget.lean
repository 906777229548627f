import AgenticKb.Properties.ServerSteps
import AgenticKb.Properties.VerifierSoundness

open AgenticKb.Lib

namespace AgenticKb.ContextBroker

/-- An expansion that comes to its pack's lock now takes no more than what the pack has left. -/
def Call.fits (s : Server) (call : Call) : Bool :=
  match call.stage with
  | .expand_lock _ pack response =>
    s.locked pack || (s.packs[pack]?).all fun state => decide (response.tokens_used ≤ state.run_remaining_tokens)
  | _ => true

def Event.fits (s : Server) : Event → Bool
  | .resume i => (s.calls[i]?).all (·.fits s)
  | _ => true

/-- No pack is overdrawn or below what it was made with. A call that is cleared for a retrieval still has
room for it, and what a failing call gives back is again such a level. -/
structure Budgeted (s : Server) : Prop where
  levels : ∀ (ref : Ref) (pack : PackState) (made : Nat), s.packs[ref]? = some pack → s.made_with[ref]? = some made →
    made ≤ pack.used_run_tokens ∧ pack.used_run_tokens ≤ pack.budget_tokens
  cleared : ∀ call ∈ s.calls, ∀ ref tokens, call.stage.asks = some (ref, tokens) →
    ∃ pack, s.packs[ref]? = some pack ∧ tokens ≤ pack.run_remaining_tokens
  refunds : ∀ call ∈ s.calls, ∀ charge ∈ call.pending, ∀ snapshot ∈ call.refund, ∀ (pack : PackState) (made : Nat),
    s.packs[charge.pack]? = some pack → s.made_with[charge.pack]? = some made →
    made ≤ snapshot.used_run_tokens ∧ snapshot.used_run_tokens ≤ pack.budget_tokens

theorem budgeted_start (db : Database) : Budgeted (.start db) :=
  ⟨by simp [Server.start], by simp [Server.start], by simp [Server.start]⟩

/-- A call that is cleared for a retrieval holds its pack's lock. -/
theorem Stage.holds_of_asks {stage : Stage} {pack : Ref} {tokens : Nat} (h : stage.asks = some (pack, tokens)) :
    stage.holds = some pack := by
  cases stage with
  | more_search request ref =>
    simp only [Stage.asks, Option.some.injEq, Prod.mk.injEq] at h
    rw [← h.1]
    rfl
  | more_hydrate request ref hits =>
    simp only [Stage.asks, Option.some.injEq, Prod.mk.injEq] at h
    rw [← h.1]
    rfl
  | _ => simp [Stage.asks] at h

theorem fits_of_expand_lock {s : Server} {call : Call} {expansion : Expansion} {pack : Ref} {response : ExpandResponse}
    {state : PackState} (h : call.fits s = true) (hstage : call.stage = .expand_lock expansion pack response)
    (hfree : s.locked pack = false) (hpack : s.packs[pack]? = some state) :
    response.tokens_used ≤ state.run_remaining_tokens := by
  simp only [Call.fits, hstage, hfree, hpack, Bool.false_or, Option.all_some, decide_eq_true_eq] at h
  exact h

section Step

variable {deps : ServerDeps} {s s' : Server} {event : Event}

/-- A charge that fits is no more than what the pack has left. -/
theorem charge_le_remaining (hbudgeted : Budgeted s) {i : Nat} {call : Call} {charge : Charge}
    {cards : List EvidenceCard} {recorded : Option PastRetrieval} {row : Writing} {state : PackState}
    (hcall : s.calls[i]? = some call) (htakes : Takes deps s call (.charge charge cards recorded row))
    (hpack : s.packs[charge.pack]? = some state) (hfits : call.fits s = true) :
    charge.tokens ≤ state.run_remaining_tokens := by
  cases htakes with
  | more _ _ _ _ max_tokens hasks hholds htokens _ _ =>
    obtain ⟨cleared, hcleared, hroom⟩ := hbudgeted.cleared call (List.mem_of_getElem? hcall) _ _ hasks
    rw [hpack, Option.some.injEq] at hcleared
    subst hcleared
    omega
  | opened _ _ _ _ found _ hfound hremaining _ _ _ =>
    rw [hpack, Option.some.injEq] at hfound
    exact hfound ▸ hremaining
  | expanded expansion response _ _ _ _ found hstage hfree hfound htokens _ _ =>
    rw [htokens]
    exact fits_of_expand_lock hfits hstage hfree hpack

/-- Nothing changes about the packs, and the calls ask and give back what they did. -/
private theorem Budgeted.of_same (h : Budgeted s) (hpacks : s'.packs = s.packs) (hmade : s'.made_with = s.made_with)
    (hcalls : ∀ call ∈ s'.calls, call ∈ s.calls ∨
      (∀ ref tokens, call.stage.asks = some (ref, tokens) →
        ∃ pack, s.packs[ref]? = some pack ∧ tokens ≤ pack.run_remaining_tokens) ∧ call.pending = none) :
    Budgeted s' := by
  refine ⟨?_, ?_, ?_⟩
  · rw [hpacks, hmade]
    exact h.levels
  · rw [hpacks]
    intro call hcall ref tokens hasks
    cases hcalls call hcall with
    | inl hold => exact h.cleared call hold ref tokens hasks
    | inr hnew => exact hnew.1 ref tokens hasks
  · rw [hpacks, hmade]
    intro call hcall charge hcharge
    cases hcalls call hcall with
    | inl hold => exact h.refunds call hold charge hcharge
    | inr hnew => simp [hnew.2] at hcharge

private theorem mem_modify_stage {calls : List Call} {i : Nat} {call : Call} {stage : Stage}
    (hcall : calls[i]? = some call) :
    ∀ other ∈ calls.modify i (fun call => { call with stage }), other ∈ calls ∨ other = { call with stage } :=
  forall_mem_modify (fun _ _ _ _ h => .inl h) (fun _ h => h) hcall (.inr rfl)

/-- One pack changes its level under a lock that one call holds. -/
private theorem Budgeted.of_set (hcon : Consistent s) (h : Budgeted s) {i : Nat} {call : Call} {ref : Ref}
    {pack pack' : PackState} {stage : Stage} (hcall : s.calls[i]? = some call) (hpack : s.packs[ref]? = some pack)
    (hkept : SamePack pack pack')
    (hlevel : ∀ made, s.made_with[ref]? = some made →
      made ≤ pack'.used_run_tokens ∧ pack'.used_run_tokens ≤ pack.budget_tokens)
    (halone : ∀ (j : Nat) (other : Call), s.calls[j]? = some other → j ≠ i → other.stage.holds ≠ some ref)
    (hasks : stage.asks = none)
    (hrefund : ∀ charge ∈ ({ call with stage } : Call).pending, charge.pack = ref ∧
      ∀ snapshot ∈ ({ call with stage } : Call).refund, snapshot.used_run_tokens = pack.used_run_tokens)
    (hpacks : s'.packs = s.packs.set ref pack') (hmade : s'.made_with = s.made_with)
    (hcalls : s'.calls = s.calls.modify i fun call => { call with stage }) : Budgeted s' := by
  refine ⟨?_, ?_, ?_⟩
  · intro ref' found made hfound hborn
    rw [hpacks] at hfound
    rw [hmade] at hborn
    cases getElem?_set_cases hfound with
    | inl heq =>
      obtain ⟨rfl, rfl⟩ := heq
      rw [hkept.budget_tokens]
      exact hlevel made hborn
    | inr hold => exact h.levels ref' found made hold.2 hborn
  · rw [hcalls]
    refine forall_mem_modify ?_ h.cleared hcall ?_
    · intro j other hne hother hcleared ref' tokens hother_asks
      have hne' : ref ≠ ref' := fun heq => halone j other hother hne (heq ▸ Stage.holds_of_asks hother_asks)
      obtain ⟨found, hfound, hroom⟩ := hcleared ref' tokens hother_asks
      refine ⟨found, ?_, hroom⟩
      rwa [hpacks, List.getElem?_set_ne hne']
    · intro ref' tokens hnew
      rw [hasks] at hnew
      simp at hnew
  · rw [hcalls]
    refine forall_mem_modify ?_ h.refunds hcall ?_
    · intro j other hne hother hrefunds charge hcharge snapshot hsnapshot found made hfound hborn
      have hholds := (hcon.backed other (List.mem_of_getElem? hother) charge hcharge).2.1
      have hne' : ref ≠ charge.pack := fun heq => halone j other hother hne (heq ▸ hholds)
      rw [hpacks, List.getElem?_set_ne hne'] at hfound
      rw [hmade] at hborn
      exact hrefunds charge hcharge snapshot hsnapshot found made hfound hborn
    · intro charge hcharge snapshot hsnapshot found made hfound hborn
      obtain ⟨rfl, hused⟩ := hrefund charge hcharge
      rw [hpacks] at hfound
      rw [hmade] at hborn
      cases getElem?_set_cases hfound with
      | inl heq =>
        rw [heq.2, hkept.budget_tokens, hused snapshot hsnapshot]
        exact h.levels charge.pack pack made hpack hborn
      | inr hother => exact absurd rfl hother.1

/-- A pack more, within its budget and without a charge. -/
private theorem Budgeted.of_make (hcon : Consistent s) (h : Budgeted s) {i : Nat} {call : Call} {pack : PackState}
    {row : Writing} (hcall : s.calls[i]? = some call) (htakes : Takes deps s call (.make pack row))
    (hpacks : s'.packs = s.packs ++ [pack]) (hmade : s'.made_with = s.made_with ++ [pack.used_run_tokens])
    (hcalls : s'.calls = s.calls.modify i fun call => { call with stage := .writing row }) : Budgeted s' := by
  obtain ⟨hbudget, huncharged⟩ : pack.used_run_tokens ≤ pack.budget_tokens ∧ row.reply.charge = none := by
    cases htakes with
    | make _ _ hbudget _ _ huncharged => exact ⟨hbudget, huncharged⟩
  refine ⟨?_, ?_, ?_⟩
  · intro ref found made hfound hborn
    rw [hpacks] at hfound
    rw [hmade] at hborn
    cases getElem?_concat_cases hfound with
    | inl hnew =>
      obtain ⟨rfl, rfl⟩ := hnew
      rw [← hcon.made, List.getElem?_concat_length, Option.some.injEq] at hborn
      exact ⟨hborn ▸ le_refl _, hbudget⟩
    | inr hold =>
      have hlt := (List.getElem?_eq_some_iff.1 hold).1
      rw [List.getElem?_append_left (hcon.made ▸ hlt)] at hborn
      exact h.levels ref found made hold hborn
  · rw [hcalls]
    refine forall_mem_modify ?_ h.cleared hcall (by simp [Stage.asks])
    intro j other hne hother hcleared ref tokens hasks
    obtain ⟨found, hfound, hroom⟩ := hcleared ref tokens hasks
    exact ⟨found, by rw [hpacks]; exact getElem?_of_concat hfound, hroom⟩
  · rw [hcalls]
    refine forall_mem_modify ?_ h.refunds hcall (by simp [Call.pending, huncharged])
    intro j other hne hother hrefunds charge hcharge snapshot hsnapshot found made hfound hborn
    have hlt := (hcon.backed other (List.mem_of_getElem? hother) charge hcharge).1
    rw [hpacks, List.getElem?_append_left hlt] at hfound
    rw [hmade, List.getElem?_append_left (hcon.made ▸ hlt)] at hborn
    exact hrefunds charge hcharge snapshot hsnapshot found made hfound hborn

/-- A step keeps the budgets if the expansion that charges in it fits. -/
theorem Budgeted.effect (hcon : Consistent s) (h : Budgeted s) (hfits : event.fits s = true)
    (heffect : Effect deps event s s') : Budgeted s' := by
  cases heffect with
  | quiet hsame hcalls answers hanswers huncharged =>
    exact h.of_same hsame.packs hsame.made_with fun call hcall => .inl (hcalls ▸ hcall)
  | arrive hsame hanswers call hfree hcalls =>
    refine h.of_same hsame.packs hsame.made_with fun other hother => ?_
    rw [hcalls] at hother
    cases List.mem_append.1 hother with
    | inl hold => exact .inl hold
    | inr hnew =>
      rw [List.mem_singleton.1 hnew]
      exact .inr ⟨by simp [hfree.asks], Stage.pending_of_uncharged hfree.uncharged⟩
  | move hsame hanswers i call stage hcall hpending htakes hcalls =>
    refine h.of_same hsame.packs hsame.made_with fun other hother => ?_
    rw [hcalls] at hother
    cases mem_modify_stage hcall other hother with
    | inl hold => exact .inl hold
    | inr hnew =>
      rw [hnew]
      refine .inr ⟨?_, htakes.pending⟩
      intro ref tokens hasks
      cases htakes with
      | await _ _ _ hroom =>
        cases hroom ref tokens hasks with
        | inl hold => exact h.cleared call (List.mem_of_getElem? hcall) ref tokens hold
        | inr hroom => exact hroom
  | make hanswers i call pack row hevent hcall hpending haction htakes hpacks hmade husages hstore hcalls =>
    exact h.of_make hcon hcall htakes hpacks hmade hcalls
  | charge hanswers i call charge cards recorded row state charged hevent hcall hpending haction htakes hpack hkept
      hused hpacks hmade husages hstore snapshot hsnapshot hcalls =>
    have hcall_fits : call.fits s = true := by
      simp only [hevent, Event.fits, hcall, Option.all_some] at hfits
      exact hfits
    have hroom := charge_le_remaining h hcall htakes hpack hcall_fits
    refine h.of_set hcon hcall hpack hkept ?_ (fun j other => htakes.charge_alone hcon hcall) rfl ?_ hpacks hmade hcalls
    · intro made hborn
      obtain ⟨hmade_le, hle⟩ := h.levels charge.pack state made hpack hborn
      rw [PackState.run_remaining_tokens] at hroom
      omega
    · intro other hother
      simp only [Call.pending, htakes.charge_reply, Option.mem_def, Option.some.injEq] at hother
      subst hother
      refine ⟨rfl, ?_⟩
      intro snapshot' hsnapshot'
      simp only [Call.refund, Option.mem_def, Option.some.injEq] at hsnapshot'
      rw [← hsnapshot', hsnapshot]
      rfl
  | finish hsame i call row answer hcall hstage hsubject hreply hanswers hcalls =>
    refine h.of_same hsame.packs hsame.made_with fun other hother => ?_
    rw [hcalls] at hother
    refine (mem_modify_stage hcall other hother).imp_right fun hnew => ?_
    rw [hnew]
    exact ⟨by simp [Stage.asks], rfl⟩
  | refund hanswers i landed call row charge snapshot state restored stage hevent hcall hstage hcharge hrefund hpack
      hkept hused hpacks hmade husages hstore hfree hcalls =>
    have hmem : call ∈ s.calls := List.mem_of_getElem? hcall
    have hpending : charge ∈ call.pending := by rw [Call.pending, hstage]; exact hcharge
    have hholds := (hcon.backed call hmem charge hpending).2.1
    refine h.of_set hcon hcall hpack hkept ?_ ?_ hfree.asks ?_ hpacks hmade hcalls
    · intro made hborn
      rw [hused]
      exact h.refunds call hmem charge hpending snapshot (by rw [Call.refund, hstage]; exact hrefund) state made hpack
        hborn
    · exact fun j other hother hne hlock => hne (hcon.exclusive j i other call charge.pack hother hcall hlock hholds)
    · intro other hother
      rw [Stage.pending_of_uncharged hfree.uncharged] at hother
      simp at hother
  | forfeit hsame hanswers i landed call charge hevent hcall hpending hcalls =>
    refine h.of_same hsame.packs hsame.made_with fun other hother => ?_
    rw [hcalls] at hother
    refine (mem_modify_stage hcall other hother).imp_right fun hnew => ?_
    rw [hnew]
    exact ⟨by simp [Stage.asks], rfl⟩

/-- An expansion that does not fit overdraws its pack when it charges. -/
theorem overdraws_of_not_fits (deps : ServerDeps) (hfits : event.fits s = false) :
    ∃ (ref : Ref) (pack : PackState), (s.step deps event).packs[ref]? = some pack ∧
      pack.budget_tokens < pack.used_run_tokens := by
  cases event with
  | resume i =>
    obtain ⟨call, hcall, hcall_fits⟩ : ∃ call, s.calls[i]? = some call ∧ call.fits s = false := by
      cases hcall : s.calls[i]? with
      | none => simp [Event.fits, hcall] at hfits
      | some call => exact ⟨call, rfl, by simpa [Event.fits, hcall] using hfits⟩
    cases hstage : call.stage with
    | expand_lock expansion ref response =>
      cases hpack : s.packs[ref]? with
      | none => simp [Call.fits, hstage, hpack] at hcall_fits
      | some pack =>
        simp only [Call.fits, hstage, hpack, Option.all_some, Bool.or_eq_false_iff, decide_eq_false_iff_not,
          Nat.not_le] at hcall_fits
        obtain ⟨hfree, hroom⟩ := hcall_fits
        have hlt : ref < s.packs.length := (List.getElem?_eq_some_iff.1 hpack).1
        refine ⟨ref, { pack with
          used_run_tokens := pack.used_run_tokens + response.tokens_used
          cards := response.cards.foldl (fun d card => d.set card.evidence_id card) pack.cards
          history := pack.history ++ [] }, ?_, ?_⟩
        · simp only [Server.step, hcall, Option.elim_some, Server.resume, hstage, resume_call, hfree, Bool.false_eq_true,
            if_false, with_pack, hpack, expand_locked, Server.go_on, Call.looks_up, Server.look_up, Server.perform,
            Server.charge, Server.set_stage, Option.toList_none]
          exact List.getElem?_set_self hlt
        · simp only [PackState.run_remaining_tokens] at hroom
          dsimp only
          omega
    | _ => simp [Call.fits, hstage] at hcall_fits
  | _ => simp [Event.fits] at hfits

/-- No pack is overdrawn, and none is below what it was made with. -/
def WithinBudgets (s : Server) : Prop :=
  ∀ (ref : Ref) (pack : PackState), s.packs[ref]? = some pack → pack.used_run_tokens ≤ pack.budget_tokens ∧
    ∃ made, s.made_with[ref]? = some made ∧ made ≤ pack.used_run_tokens

theorem Budgeted.within (hcon : Consistent s) (h : Budgeted s) : WithinBudgets s := by
  intro ref pack hpack
  have hlt : ref < s.made_with.length := hcon.made ▸ (List.getElem?_eq_some_iff.1 hpack).1
  obtain ⟨hle, hbudget⟩ := h.levels ref pack _ hpack (List.getElem?_eq_getElem hlt)
  exact ⟨hbudget, _, List.getElem?_eq_getElem hlt, hle⟩

/-- The budgets hold throughout a run if and only if every expansion fits its pack when it charges it. -/
theorem within_budgets_iff_fits (deps : ServerDeps) (db : Database) (events : List Event) :
    (∀ n, WithinBudgets ((events.take n).foldl (Server.step deps) (.start db))) ↔
      Along (Server.step deps) (fun s event => event.fits s = true) (.start db) events := by
  have hkept : ∀ (s : Server) (event : Event), Consistent s ∧ Budgeted s → event.fits s = true →
      Consistent (s.step deps event) ∧ Budgeted (s.step deps event) :=
    fun s event h hfits => ⟨h.1.effect (step_effect h.1 event), h.2.effect h.1 hfits (step_effect h.1 event)⟩
  -- a step from a budgeted server keeps the budgets only if what charges in it fits
  have hfits : ∀ (s : Server) (event : Event), WithinBudgets (s.step deps event) → event.fits s = true := by
    intro s event hwithin
    by_contra hnot
    obtain ⟨ref, pack, hpack, hover⟩ := overdraws_of_not_fits deps (Bool.eq_false_iff.2 hnot)
    exact absurd (hwithin ref pack hpack).1 (Nat.not_le_of_lt hover)
  rw [forall_take_iff_along]
  constructor
  · intro h
    exact h.2.mono hfits
  · intro h
    refine ⟨(budgeted_start db).within (consistent_start db), ?_⟩
    exact h.imp_of_invariant (I := fun s => Consistent s ∧ Budgeted s) (fun s event _ => hkept s event)
      (fun s event _ hs hok => (hkept s event hs hok).2.within (hkept s event hs hok).1)
      ⟨consistent_start db, budgeted_start db⟩

end Step

section Race

/-- Services to run the server on small inputs. -/
def ServerDeps.plain : ServerDeps :=
  { VerifierDeps.plain with
    hit_dump_json := fun hit => hit.title
    run_task_context_graph := fun _ _ _ _ => ⟨[], 0⟩ }

/-- Two public files that import nothing. -/
def file_database : Database := { repo_database [] with edges := [] }

/-- The `i`-th call makes an empty pack for the agent's run. -/
def makes_pack (i : Nat) (context_pack_id : String) (budget_tokens : Nat) : List Event :=
  .begin outsider (.create_pack
    { run_id := "run", task := "task", approved_context_plan := "plan", retrieval_profile := "code", budget_tokens }
    context_pack_id) :: List.replicate 3 (.resume i)

/-- The agent asks for one file. -/
def expands (context_pack_id : String) (file : Uuid) : Event :=
  .begin outsider (.expand { seed_artifact_ids := [file], context_pack_id := some context_pack_id, budget_tokens := 10 })

/-- Two expansions that both read the budget of a pack before either charges it. -/
def expand_race : List Event :=
  makes_pack 0 "p" 2 ++ [expands "p" 1, expands "p" 2, .resume 1, .resume 2, .resume 1, .resume 2, .resume 1, .resume 2,
    .resume 1, .resume 1, .resume 2]

theorem within_budgets_race :
    ¬ ∀ n, WithinBudgets ((expand_race.take n).foldl (Server.step .plain) (.start file_database)) := by
  intro h
  have hover : ∃ pack ∈ ((expand_race.take 15).foldl (Server.step .plain) (.start file_database)).packs,
      pack.budget_tokens < pack.used_run_tokens := by decide +kernel
  obtain ⟨pack, hmem, hover⟩ := hover
  obtain ⟨ref, hpack⟩ := List.mem_iff_getElem?.1 hmem
  exact absurd (h 15 ref pack hpack).1 (Nat.not_le_of_lt hover)

end Race

end AgenticKb.ContextBroker

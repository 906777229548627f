import Mathlib.Logic.Relation
import AgenticKb.ContextBroker.Server
import AgenticKb.Properties.SearchMeter

open AgenticKb.Lib

namespace AgenticKb.ContextBroker

/-! What a call comes to when nothing happens between its awaits: the tools as they run in one go are the calls of the
server that no other call gets in the way of. -/

section Expand

variable {deps : ServerDeps} {s : Server} {i : Nat} {call : Call}

/-- The awaits of one call complete, and nothing else happens. -/
def Server.Awaits (deps : ServerDeps) (i : Nat) : Server → Server → Prop :=
  Relation.ReflTransGen fun s s' => s' = s.step deps (.resume i)

theorem set_stage_set_stage (stage stage' : Stage) : (s.set_stage i stage).set_stage i stage' = s.set_stage i stage' := by
  unfold Server.set_stage
  rw [List.modify_modify_eq]
  rfl

theorem getElem?_set_stage (hcall : s.calls[i]? = some call) (stage : Stage) :
    (s.set_stage i stage).calls[i]? = some { call with stage } := by
  unfold Server.set_stage
  rw [List.getElem?_modify_eq, hcall]
  rfl

/-- An await that leads to the next one. -/
theorem awaits_go_on (hcall : s.calls[i]? = some call) (stage stage' : Stage) (hrow : ∀ row, stage ≠ .writing row)
    (hlooks : Call.looks_up { call with stage } s.db = none)
    (hresume : resume_call deps (s.set_stage i stage) { call with stage } = some (.await stage')) :
    (s.set_stage i stage).Awaits deps i (s.set_stage i stage') := by
  refine .single ?_
  have hgo : (s.set_stage i stage).resume deps i { call with stage } =
      (s.set_stage i stage).go_on i { call with stage }
        (resume_call deps (s.set_stage i stage) { call with stage }) := by
    unfold Server.resume
    split
    · rename_i row hstage
      exact absurd hstage (hrow row)
    · rfl
  have hdb : (s.set_stage i stage).db = s.db := rfl
  rw [Server.step, getElem?_set_stage hcall, Option.elim_some, hgo, hresume, Server.go_on, hdb, hlooks]
  exact (set_stage_set_stage stage stage').symm

variable {expansion : Expansion}

/-- An expansion only awaits until its cards are taken. -/
theorem expand_tier_awaits (deps : ServerDeps) (requester : Requester) (expansion : Expansion) (walk : TierWalk) :
    ∃ stage, expand_tier deps requester expansion walk = .await stage := by
  have hfound : ∀ walk, ∃ stage, expand_found deps requester expansion walk = .await stage := by
    intro walk
    unfold expand_found
    dsimp only
    cases expansion.pack with
    | some pack => exact ⟨_, rfl⟩
    | none => exact ⟨_, rfl⟩
  unfold expand_tier
  dsimp only
  split_ifs
  · exact ⟨_, rfl⟩
  · exact hfound _
  · exact ⟨_, rfl⟩
  · exact hfound _

/-- One level of a tier: the edges are read, and the nodes if the edges lead to any. -/
theorem awaits_edges (hcall : s.calls[i]? = some call) (walk : TierWalk) :
    (s.set_stage i (.expand_edges expansion walk)).Awaits deps i
      (s.perform i call (expand_edges deps s call.requester expansion walk)) := by
  obtain ⟨stage, hstage⟩ : ∃ stage, expand_edges deps s call.requester expansion walk = .await stage := by
    unfold expand_edges
    dsimp only
    split_ifs
    · exact expand_tier_awaits ..
    · exact ⟨_, rfl⟩
  rw [hstage]
  exact awaits_go_on hcall _ stage (fun row h => by cases h) rfl (congrArg some hstage)

theorem awaits_nodes (hcall : s.calls[i]? = some call) (walk : TierWalk) (neighbor_ids : List Uuid) :
    (s.set_stage i (.expand_nodes expansion walk neighbor_ids)).Awaits deps i
      (s.perform i call (expand_nodes deps s call.requester expansion walk neighbor_ids)) := by
  obtain ⟨stage, hstage⟩ := expand_tier_awaits deps call.requester expansion
    { walk with
      frontier := (neighbor_ids.filterMap (allowed_by_id deps.platform s.db expansion.active.build_seq call.requester
        neighbor_ids)).map (·.artifact_id)
      rows := walk.rows ++ neighbor_ids.filterMap (allowed_by_id deps.platform s.db expansion.active.build_seq
        call.requester neighbor_ids) }
  have hnodes : expand_nodes deps s call.requester expansion walk neighbor_ids = .await stage := hstage
  rw [hnodes]
  exact awaits_go_on hcall _ stage (fun row h => by cases h) rfl (congrArg some hnodes)

theorem artifact_id_of_allowed {p : Platform} {db : Database} {build_seq : Nat} {requester : Requester} {ids : List Uuid}
    {id : Uuid} {row : ArtifactRow} (h : allowed_by_id p db build_seq requester ids id = some row) :
    row.artifact_id = id := by
  have := List.find?_some h
  simpa using this

theorem expand_tier_of_frontier {requester : Requester} {walk : TierWalk} (hne : ¬walk.frontier.isEmpty = true) :
    expand_tier deps requester expansion walk = .await (.expand_edges expansion walk) := by
  rw [expand_tier, if_pos (by rwa [Bool.not_eq_true', ← Bool.not_eq_true])]

/-- A tier is walked level by level to its end. -/
theorem awaits_tier (hcall : s.calls[i]? = some call) (include_inferred : Bool) (frontier visited : List Uuid)
    (walk : TierWalk) (htier : walk.include_inferred = include_inferred) (hfrontier : walk.frontier = frontier)
    (hvisited : walk.visited = visited) {found : List ArtifactRow × List Uuid}
    (hfound : bfs_tier deps.toBrokerDeps s.db expansion.active.build_seq call.requester expansion.request.trust_floor
      include_inferred frontier visited = found) :
    (s.perform i call (expand_tier deps call.requester expansion walk)).Awaits deps i
      (s.perform i call (expand_tier deps call.requester expansion
        { walk with frontier := [], visited := found.2, rows := walk.rows ++ found.1 })) := by
  induction frontier, visited using bfs_tier.induct deps.toBrokerDeps s.db expansion.active.build_seq call.requester
    expansion.request.trust_floor include_inferred generalizing walk found with
  | case1 frontier visited hempty =>
    rw [bfs_tier, if_pos hempty] at hfound
    have hsame : { walk with frontier := [], visited := found.2, rows := walk.rows ++ found.1 } = walk := by
      rw [← hfound, List.append_nil, ← hvisited, ← List.isEmpty_iff.1 hempty, ← hfrontier]
    rw [hsame]
    exact .refl
  | case2 frontier visited hne level =>
    rename_i hnone
    subst htier hfrontier hvisited
    rw [bfs_tier, if_neg hne, dif_pos hnone] at hfound
    have hedges : expand_edges deps s call.requester expansion walk =
        expand_tier deps call.requester expansion
          { walk with frontier := [], visited := found.2, rows := walk.rows ++ found.1 } := by
      unfold expand_edges
      dsimp only
      rw [if_pos (List.isEmpty_iff.2 hnone), ← hfound, List.append_nil]
    rw [expand_tier_of_frontier hne, ← hedges]
    exact awaits_edges hcall walk
  | case3 frontier visited hne level hsome row reached =>
    rename_i ih
    subst htier hfrontier hvisited
    rw [bfs_tier, if_neg hne, dif_neg hsome] at hfound
    have hedges : expand_edges deps s call.requester expansion walk =
        .await (.expand_nodes expansion { walk with visited := level.1 } (level.2.map (·.node))) := by
      unfold expand_edges
      dsimp only
      rw [if_neg (by rwa [List.isEmpty_iff])]
    have hrows : reached.map (·.2) = (level.2.map (·.node)).filterMap row := by
      rw [List.map_filterMap, List.filterMap_map]
      refine List.filterMap_congr fun hop _ => ?_
      rw [Function.comp_apply]
      cases row hop.node <;> rfl
    have hnodes : reached.map (·.1) = ((level.2.map (·.node)).filterMap row).map (·.artifact_id) := by
      rw [List.map_filterMap, List.filterMap_map, List.map_filterMap]
      refine List.filterMap_congr fun hop _ => ?_
      rw [Option.map_map]
      refine Option.map_congr fun found hfound => ?_
      exact (artifact_id_of_allowed hfound).symm
    have hnext : expand_nodes deps s call.requester expansion { walk with visited := level.1 } (level.2.map (·.node)) =
        expand_tier deps call.requester expansion
          { walk with visited := level.1, frontier := reached.map (·.1), rows := walk.rows ++ reached.map (·.2) } := by
      rw [hnodes, hrows]
      rfl
    have hend : { walk with frontier := [], visited := found.2, rows := walk.rows ++ found.1 } =
        { walk with
          frontier := []
          visited := (bfs_tier deps.toBrokerDeps s.db expansion.active.build_seq call.requester
            expansion.request.trust_floor walk.include_inferred (reached.map (·.1)) level.1).2
          rows := walk.rows ++ reached.map (·.2) ++ (bfs_tier deps.toBrokerDeps s.db expansion.active.build_seq
            call.requester expansion.request.trust_floor walk.include_inferred (reached.map (·.1)) level.1).1 } := by
      rw [← hfound, List.append_assoc]
    rw [expand_tier_of_frontier hne, hend]
    refine (awaits_edges hcall walk).trans ?_
    rw [hedges]
    refine (awaits_nodes hcall _ _).trans ?_
    rw [hnext]
    exact ih { walk with
      visited := level.1, frontier := reached.map (·.1), rows := walk.rows ++ reached.map (·.2) } rfl rfl rfl rfl

theorem expand_tier_inferred {requester : Requester} {walk : TierWalk}
    (hinferred : expansion.request.include_inferred = true) (htier : walk.include_inferred = false) (hend : walk.frontier = []) :
    expand_tier deps requester expansion walk = expand_tier deps requester expansion
      { walk with include_inferred := true, frontier := walk.seeds ++ walk.rows.map (·.artifact_id) } := by
  unfold expand_tier
  simp only [hinferred, htier, hend, List.isEmpty_nil, Bool.not_true, Bool.not_false, Bool.and_true, Bool.and_false,
    Bool.false_eq_true, if_false, if_true]
  split_ifs with hempty hsome
  · simp [hempty] at hsome
  · rfl
  · rfl
  · simp [hempty] at *

theorem expand_tier_last (requester : Requester) (walk : TierWalk)
    (hlast : expansion.request.include_inferred = true → walk.include_inferred = true) (hend : walk.frontier = []) :
    expand_tier deps requester expansion walk = expand_found deps requester expansion walk := by
  have hno : (expansion.request.include_inferred && !walk.include_inferred) = false := by
    cases hinferred : expansion.request.include_inferred with
    | false => rfl
    | true => rw [hlast hinferred]; rfl
  unfold expand_tier
  rw [hend, hno]
  rfl

/-- The walk of a lone expansion finds the rows of `expand_rows`. -/
theorem awaits_found (deps : ServerDeps) (hcall : s.calls[i]? = some call) (expansion : Expansion) :
    ∃ walk : TierWalk, walk.seed_rows ++ walk.rows =
        expand_rows deps.toBrokerDeps s.db expansion.active.build_seq call.requester expansion.request ∧
      (s.set_stage i (.expand_seeds expansion)).Awaits deps i
        (s.perform i call (expand_found deps call.requester expansion walk)) := by
  set seed_rows := filter_artifacts call.requester
    (fetch_artifacts deps.platform s.db expansion.request.seed_artifact_ids expansion.active.build_seq) with hseed_rows
  set seeds := (seed_rows.foldl (fun (d : Dict Uuid ArtifactRow) row => d.set row.artifact_id row) []).map (·.1) with hseeds
  set extracted := bfs_tier deps.toBrokerDeps s.db expansion.active.build_seq call.requester
    expansion.request.trust_floor false seeds expansion.request.seed_artifact_ids with hextracted
  have hfirst : (s.set_stage i (.expand_seeds expansion)).Awaits deps i
      (s.perform i call (expand_tier deps call.requester expansion
        { seed_rows, seeds, frontier := [], visited := extracted.2, rows := [] ++ extracted.1 })) := by
    obtain ⟨stage, hstage⟩ := expand_tier_awaits deps call.requester expansion
      { seed_rows, seeds, frontier := seeds, visited := expansion.request.seed_artifact_ids }
    have hseeds_tier := awaits_tier hcall false seeds expansion.request.seed_artifact_ids
      { seed_rows, seeds, frontier := seeds, visited := expansion.request.seed_artifact_ids } rfl rfl rfl hextracted.symm
    rw [hstage] at hseeds_tier
    exact (awaits_go_on hcall (.expand_seeds expansion) stage (fun row h => by cases h) rfl
      (congrArg some hstage)).trans hseeds_tier
  cases hinferred : expansion.request.include_inferred with
  | false =>
    refine ⟨{ seed_rows, seeds, frontier := [], visited := extracted.2, rows := [] ++ extracted.1 }, ?_, ?_⟩
    · simp only [expand_rows, hinferred, Bool.false_eq_true, if_false, List.append_nil, List.nil_append]
      rfl
    · rwa [expand_tier_last _ _ (by simp [hinferred]) rfl] at hfirst
  | true =>
    set inferred := bfs_tier deps.toBrokerDeps s.db expansion.active.build_seq call.requester
      expansion.request.trust_floor true (seeds ++ extracted.1.map (·.artifact_id)) extracted.2 with hinferred_rows
    refine ⟨{ seed_rows, seeds, include_inferred := true, frontier := [], visited := inferred.2
              rows := [] ++ extracted.1 ++ inferred.1 }, ?_, ?_⟩
    · simp only [expand_rows, hinferred, if_true, List.nil_append, ← List.append_assoc]
      rfl
    · rw [expand_tier_inferred hinferred rfl rfl] at hfirst
      have hsecond := awaits_tier hcall true (seeds ++ extracted.1.map (·.artifact_id)) extracted.2
        { seed_rows, seeds, include_inferred := true, frontier := seeds ++ extracted.1.map (·.artifact_id)
          visited := extracted.2, rows := [] ++ extracted.1 } rfl rfl rfl hinferred_rows.symm
      rw [expand_tier_last call.requester
        { seed_rows, seeds, include_inferred := true, frontier := [], visited := inferred.2
          rows := [] ++ extracted.1 ++ inferred.1 } (fun _ => rfl) rfl] at hsecond
      exact hfirst.trans hsecond

/-- The call is over, and has returned this. -/
structure Server.Returned (s t : Server) (i : Nat) (reply : Reply) : Prop where
  done : t.calls[i]?.map (·.stage) = some .done
  answer : (t.answers.map (·.reply)) = s.answers.map (·.reply) ++ [reply]

/-- A row that no pack waits for is written, and the call returns. -/
theorem awaits_row (deps : ServerDeps) (hcall : s.calls[i]? = some call) (row : Writing) (hstores : row.stores = none) :
    ∃ t, (s.set_stage i (.writing row)).Awaits deps i t ∧ s.Returned t i row.reply := by
  refine ⟨_, .single rfl, ?_⟩
  rw [Server.step, getElem?_set_stage hcall, Option.elim_some]
  have hresume : (s.set_stage i (.writing row)).resume deps i { call with stage := .writing row } =
      ((s.set_stage i (.writing row)).insert_event row.event).finish i { call with stage := .writing row } row := rfl
  rw [hresume, Server.finish, hstores]
  dsimp only [Option.elim_none]
  constructor
  · have hmid : ((s.set_stage i (.writing row)).insert_event row.event).calls[i]? =
        some { call with stage := .writing row } := getElem?_set_stage hcall _
    exact congrArg (Option.map (·.stage)) (getElem?_set_stage hmid .done)
  · exact List.map_append

/-- Waiting for a lock nobody holds keeps it free. -/
theorem locked_set_stage {stage : Stage} (hholds : stage.holds = none) {ref : Ref} (hfree : s.locked ref = false) :
    (s.set_stage i stage).locked ref = false := by
  simp only [Server.locked, List.any_eq_false, beq_iff_eq] at hfree ⊢
  intro other hother
  obtain ⟨j, hj, rfl⟩ := List.getElem_of_mem hother
  simp only [Server.set_stage, List.getElem_modify]
  split
  · simp [hholds]
  · exact hfree _ (List.getElem_mem _)

/-- The charge leaves the calls and the answers alone. -/
theorem same_charge (subject : String) (charge : Charge) (cards : List EvidenceCard) (recorded : Option PastRetrieval) :
    (s.charge subject charge cards recorded).calls = s.calls ∧
      (s.charge subject charge cards recorded).answers = s.answers := by
  unfold Server.charge
  cases s.packs[charge.pack]? with
  | some pack => exact ⟨rfl, rfl⟩
  | none => exact ⟨rfl, rfl⟩

/-- The cards are charged under the lock, if they are a pack's, and their row is written. -/
theorem awaits_cards (hcall : s.calls[i]? = some call)
    (hpack : ∀ ref ∈ expansion.pack, (s.packs[ref]?).isSome ∧ s.locked ref = false) {walk : TierWalk}
    (hwalk : walk.seed_rows ++ walk.rows =
      expand_rows deps.toBrokerDeps s.db expansion.active.build_seq call.requester expansion.request) :
    ∃ t, (s.perform i call (expand_found deps call.requester expansion walk)).Awaits deps i t ∧
      s.Returned t i (.expand expansion.pack (expand_cards deps.toBrokerDeps s.db expansion.active.build_seq
        call.requester expansion.request expansion.effective_budget expansion.pack_artifact_ids)) := by
  generalize hresponse : expand_cards deps.toBrokerDeps s.db expansion.active.build_seq call.requester
    expansion.request expansion.effective_budget expansion.pack_artifact_ids = response
  rw [expand_cards, ← hwalk] at hresponse
  cases hp : expansion.pack with
  | none =>
    have hfound : expand_found deps call.requester expansion walk =
        .await (.writing { event := expand_event deps call.requester expansion response NO_RUN_SENTINEL none
                           reply := .expand none response }) := by
      rw [expand_found, hp, ← hresponse]
    rw [hfound]
    exact awaits_row deps hcall _ rfl
  | some ref =>
    obtain ⟨hsome, hfree⟩ := hpack ref (hp ▸ rfl)
    obtain ⟨state, hstate⟩ := Option.isSome_iff_exists.1 hsome
    have hfound : expand_found deps call.requester expansion walk = .await (.expand_lock expansion ref response) := by
      rw [expand_found, hp, ← hresponse]
    have hfree' : (s.set_stage i (.expand_lock expansion ref response)).locked ref = false := locked_set_stage rfl hfree
    set s' := s.set_stage i (.expand_lock expansion ref response) with hs'
    set charged := s'.charge call.requester.subject { pack := ref, requests := 0, tokens := response.tokens_used }
      response.cards none with hcharged
    obtain ⟨hcalls, hanswers⟩ : charged.calls = s'.calls ∧ charged.answers = s'.answers := same_charge ..
    have hmid : charged.calls[i]? = some { call with stage := .expand_lock expansion ref response } := by
      rw [hcalls]
      exact getElem?_set_stage hcall _
    have hresume : resume_call deps s' { call with stage := .expand_lock expansion ref response } =
        some (expand_locked deps call.requester expansion ref response state) := by
      simp only [resume_call, hfree', Bool.false_eq_true, if_false, with_pack]
      rw [show s'.packs[ref]? = some state from hstate]
    have hstep : ∃ row : Writing, row.stores = none ∧ row.reply = .expand (some ref) response ∧
        s'.step deps (.resume i) = charged.set_stage i (.writing row) := by
      refine ⟨{ event := expand_event deps call.requester expansion response state.run_id (some state.context_pack_id)
                reply := .expand (some ref) response
                lock := some ref
                refund := (s'.packs[ref]?).map fun pack => s'.snapshot pack call.requester.subject }, rfl, rfl, ?_⟩
      rw [Server.step, hs', getElem?_set_stage hcall, ← hs', Option.elim_some]
      show s'.go_on i _ (resume_call deps s' _) = _
      rw [hresume]
      rfl
    obtain ⟨row, hstores, hreply, hstep⟩ := hstep
    obtain ⟨t, hawaits, hreturned⟩ := awaits_row deps hmid row hstores
    refine ⟨t, ?_, ?_⟩
    · rw [hfound]
      exact Relation.ReflTransGen.head hstep.symm hawaits
    · rw [hreply] at hreturned
      exact ⟨hreturned.done, by rw [hreturned.answer, hanswers]; rfl⟩

/-- What `context.expand` returns. -/
def expand_reply (pack : Option Ref) : Except String ExpandResponse → Reply
  | .ok response => .expand pack response
  | .error message => .error message

/-- A pack that is looked up moves to the back of the store, and nothing else happens. -/
theorem same_look_up (s : Server) (id : Option String) : s.look_up id = { s with store := (s.look_up id).store } := by
  cases id <;> rfl

/-- The active version is read, and the pack looked up. -/
theorem awaits_active (hcall : s.calls[i]? = some call) {request : ExpandRequest} {stage : Stage} {active : ActiveVersion}
    (hactive : fetch_active_version s.db = some active)
    (hstage : expand_active deps s call.requester request = .await stage) :
    (s.set_stage i (.expand_active request)).Awaits deps i ((s.look_up request.context_pack_id).set_stage i stage) := by
  refine .single ?_
  have hlooks : Call.looks_up { call with stage := .expand_active request } (s.set_stage i (.expand_active request)).db =
      request.context_pack_id := by
    have hdb : (s.set_stage i (.expand_active request)).db = s.db := rfl
    rw [Call.looks_up, hdb, hactive]
    rfl
  have hgo : (s.set_stage i (.expand_active request)).step deps (.resume i) =
      ((s.set_stage i (.expand_active request)).look_up request.context_pack_id).set_stage i stage := by
    rw [Server.step, getElem?_set_stage hcall, Option.elim_some]
    show ((s.set_stage i (.expand_active request)).look_up (Call.looks_up _ _)).perform i _
      (expand_active deps s call.requester request) = _
    rw [hlooks, hstage]
    rfl
  have hcomm : (s.set_stage i (.expand_active request)).look_up request.context_pack_id =
      (s.look_up request.context_pack_id).set_stage i (.expand_active request) := by
    cases request.context_pack_id <;> rfl
  rw [hgo, hcomm, set_stage_set_stage]

/-- From the first read to the answer. -/
theorem awaits_expansion (deps : ServerDeps) (hcall : s.calls[i]? = some call) (expansion : Expansion)
    (hpack : ∀ ref ∈ expansion.pack, (s.packs[ref]?).isSome ∧ s.locked ref = false) :
    ∃ t, (s.set_stage i (.expand_seeds expansion)).Awaits deps i t ∧
      s.Returned t i (.expand expansion.pack (expand_cards deps.toBrokerDeps s.db expansion.active.build_seq
        call.requester expansion.request expansion.effective_budget expansion.pack_artifact_ids)) := by
  obtain ⟨walk, hwalk, hfound⟩ := awaits_found deps hcall expansion
  obtain ⟨t, hcards, hreturned⟩ := awaits_cards hcall hpack hwalk
  exact ⟨t, hfound.trans hcards, hreturned⟩

section Active

variable {request : ExpandRequest}

/-- What is returned after a pack was looked up is returned without that. -/
theorem Server.Returned.of_look_up {id : Option String} {t : Server} {reply : Reply}
    (h : (s.look_up id).Returned t i reply) : s.Returned t i reply := by
  refine ⟨h.done, ?_⟩
  rw [h.answer, same_look_up]

theorem getElem?_look_up (id : Option String) (hcall : s.calls[i]? = some call) :
    (s.look_up id).calls[i]? = some call := by
  rw [same_look_up]
  exact hcall

/-- No version is active. -/
theorem awaits_unserved (deps : ServerDeps) (hcall : s.calls[i]? = some call) (request : ExpandRequest)
    (hactive : fetch_active_version s.db = none) :
    ∃ t, (s.set_stage i (.expand_active request)).Awaits deps i t ∧ s.Returned t i (.error MSG_NO_ACTIVE_VERSION) := by
  have hread : expand_active deps s call.requester request = write_error
      (error_event call.requester "context.expand" (some (seed_text deps request))) MSG_NO_ACTIVE_VERSION := by
    unfold expand_active
    rw [hactive]
  obtain ⟨t, hrow, hreturned⟩ := awaits_row deps hcall
    { event := error_event call.requester "context.expand" (some (seed_text deps request))
      reply := .error MSG_NO_ACTIVE_VERSION } rfl
  refine ⟨t, (awaits_go_on hcall (.expand_active request) _ (fun row h => by cases h) ?_
    (congrArg some hread)).trans hrow, hreturned⟩
  rw [Call.looks_up, hactive]
  rfl

/-- The pack that the request names is not in the store. -/
theorem awaits_unknown_pack (deps : ServerDeps) (hcall : s.calls[i]? = some call) {active : ActiveVersion}
    (hactive : fetch_active_version s.db = some active) {id : String} (hid : request.context_pack_id = some id)
    (hget : s.store.packs.get? id = none) :
    ∃ t, (s.set_stage i (.expand_active request)).Awaits deps i t ∧ s.Returned t i (.error (unknown_pack id)) := by
  have hread : expand_active deps s call.requester request =
      write_error (error_event call.requester "context.expand" (some id)) (unknown_pack id) := by
    unfold expand_active
    rw [hactive, hid, Option.bind_some, hget]
  obtain ⟨t, hrow, hreturned⟩ := awaits_row deps (getElem?_look_up request.context_pack_id hcall)
    { event := error_event call.requester "context.expand" (some id), reply := .error (unknown_pack id) } rfl
  exact ⟨t, (awaits_active hcall hactive hread).trans hrow, hreturned.of_look_up⟩

/-- The request names no pack, or one that is kept. -/
theorem awaits_known_pack (hcall : s.calls[i]? = some call) {active : ActiveVersion}
    (hactive : fetch_active_version s.db = some active) {expansion : Expansion}
    (hread : expand_active deps s call.requester request = .await (.expand_seeds expansion))
    (hpack : ∀ ref ∈ expansion.pack, (s.packs[ref]?).isSome ∧ s.locked ref = false) :
    ∃ t, (s.set_stage i (.expand_active request)).Awaits deps i t ∧
      s.Returned t i (.expand expansion.pack (expand_cards deps.toBrokerDeps s.db expansion.active.build_seq
        call.requester expansion.request expansion.effective_budget expansion.pack_artifact_ids)) := by
  have hsame := same_look_up s request.context_pack_id
  obtain ⟨t, hrun, hreturned⟩ := awaits_expansion deps (getElem?_look_up request.context_pack_id hcall) expansion (by
    intro ref hmem
    rw [hsame]
    exact hpack ref hmem)
  refine ⟨t, (awaits_active hcall hactive hread).trans hrun, ?_⟩
  have hdb : (s.look_up request.context_pack_id).db = s.db := by rw [hsame]
  exact (hdb ▸ hreturned).of_look_up

/-- A call that comes in holds no lock. -/
theorem locked_begun (hcall : call.stage = .done) (ref : Ref) :
    ({ s with calls := s.calls ++ [call] } : Server).locked ref = s.locked ref := by
  have hdone : (call.stage.holds == some ref) = false := by
    rw [hcall]
    rfl
  rw [Server.locked, List.any_append, List.any_cons, List.any_nil, hdone, Bool.or_false, Bool.or_false]
  rfl

end Active

/-- A lone `context.expand` returns what `expand` computes, where every pack in the store is kept and no lock is held. -/
theorem expand_alone (deps : ServerDeps) (s : Server) (requester : Requester) (request : ExpandRequest)
    {packs : Dict String PackState} (hpacks : ∀ id, packs.get? id = (s.store.packs.get? id).bind (s.packs[·]?))
    (hstored : ∀ id ref, s.store.packs.get? id = some ref → (s.packs[ref]?).isSome)
    (hfree : ∀ ref, s.locked ref = false) :
    ∃ t, (s.step deps (.begin requester (.expand request))).Awaits deps s.calls.length t ∧
      s.Returned t s.calls.length (expand_reply (request.context_pack_id.bind s.store.packs.get?)
        (expand deps.toBrokerDeps s.db packs requester request)) := by
  set call : Call := { requester, tool_name := (Request.expand request).tool_name, stage := .done } with hcall_eq
  set begun : Server := { s with calls := s.calls ++ [call] } with hbegun
  have hcall : begun.calls[s.calls.length]? = some call := by
    rw [hbegun]
    exact List.getElem?_concat_length
  have hbegin : s.step deps (.begin requester (.expand request)) =
      begun.set_stage s.calls.length (.expand_active request) := rfl
  -- the answers of the server are those from before the call
  have hanswers : ∀ {t reply}, begun.Returned t s.calls.length reply → s.Returned t s.calls.length reply :=
    fun h => ⟨h.done, h.answer⟩
  have hlocked : ∀ ref, begun.locked ref = false := fun ref => (locked_begun rfl ref).trans (hfree ref)
  rw [hbegin]
  unfold expand
  cases hactive : fetch_active_version s.db with
  | none =>
    obtain ⟨t, hawaits, hreturned⟩ := awaits_unserved deps hcall request hactive
    exact ⟨t, hawaits, hanswers hreturned⟩
  | some active =>
    dsimp only
    cases hid : request.context_pack_id with
    | none =>
      have hread : expand_active deps begun requester request =
          .await (.expand_seeds { request, active, pack := none
                                  effective_budget := effective_budget deps.toBrokerDeps request none
                                  pack_artifact_ids := pack_artifact_ids none }) := by
        unfold expand_active
        rw [show begun.db = s.db from rfl, hactive, hid]
        rfl
      obtain ⟨t, hawaits, hreturned⟩ :=
        awaits_known_pack hcall hactive hread fun ref h => absurd h (Option.not_mem_none ref)
      exact ⟨t, hawaits, hanswers hreturned⟩
    | some id =>
      cases hget : s.store.packs.get? id with
      | none =>
        obtain ⟨t, hawaits, hreturned⟩ := awaits_unknown_pack deps hcall hactive hid hget
        refine ⟨t, hawaits, ?_⟩
        dsimp only
        rw [hpacks, hget]
        exact hanswers hreturned
      | some ref =>
        obtain ⟨state, hstate⟩ := Option.isSome_iff_exists.1 (hstored id ref hget)
        have hread : expand_active deps begun requester request =
            .await (.expand_seeds { request, active, pack := some ref
                                    effective_budget := effective_budget deps.toBrokerDeps request (some state)
                                    pack_artifact_ids := pack_artifact_ids (some state) }) := by
          unfold expand_active
          rw [show begun.db = s.db from rfl, hactive, hid, Option.bind_some, show begun.store = s.store from rfl, hget]
          dsimp only [Option.bind_some]
          rw [show begun.packs = s.packs from rfl, hstate]
        obtain ⟨t, hawaits, hreturned⟩ := awaits_known_pack hcall hactive hread (by
          rintro other hother
          obtain rfl := Option.some.inj hother
          exact ⟨hstate ▸ rfl, hlocked ref⟩)
        refine ⟨t, hawaits, ?_⟩
        dsimp only
        rw [hpacks, Option.bind_some, hget, Option.bind_some, hstate]
        exact hanswers hreturned

end Expand

section Search

variable {deps : ServerDeps} {s : SearchServer} {i : Nat} {call : SearchCall} {window : Ref} {state : KbSearchWindow}

namespace SearchServer

/-- The awaits of one search complete, and nothing else happens. -/
def Awaits (deps : ServerDeps) (i : Nat) : SearchServer → SearchServer → Prop :=
  Relation.ReflTransGen fun s s' => s' = s.step deps (.resume i)

/-- What the budget windows read, by their keys. -/
def usages (s : SearchServer) : Dict (String × String) AgentUsage :=
  s.store.map fun entry => (entry.1, (s.windows[entry.2]?).elim {} (·.usage))

theorem set_stage_set_stage (stage stage' : SearchStage) : (s.set_stage i stage).set_stage i stage' = s.set_stage i stage' := by
  unfold set_stage
  rw [List.modify_modify_eq]
  rfl

theorem calls_set_stage (hcall : s.calls[i]? = some call) (stage : SearchStage) :
    (s.set_stage i stage).calls[i]? = some { call with stage } := by
  unfold set_stage
  rw [List.getElem?_modify_eq, hcall]
  rfl

/-- One await of a search. -/
theorem awaits_resume (deps : ServerDeps) (hcall : s.calls[i]? = some call) (stage : SearchStage) :
    (s.set_stage i stage).Awaits deps i (resume_search deps (s.set_stage i stage) i { call with stage }) := by
  refine .single ?_
  rw [step, calls_set_stage hcall]
  rfl

end SearchServer

/-- Without a hit nothing is found. -/
theorem ranked_rows_of_no_hit {requester : Requester} {db : Database} {build_seq : Nat} {hits : List SearchHit}
    (hempty : hits.isEmpty = true) :
    ranked_rows deps.toBrokerDeps requester none hits
      (fetch_artifacts deps.platform db ((hit_scores hits).map (·.1)) build_seq) [] = [] := by
  have hnone : fetch_artifacts deps.platform db ((hit_scores hits).map (·.1)) build_seq = [] := by
    rw [List.isEmpty_iff.1 hempty, fetch_artifacts, List.filter_eq_nil_iff]
    intro row _
    simp [hit_scores]
  rw [hnone]
  simp [ranked_rows, filter_artifacts, sorted, collapse_near_duplicates]

theorem with_usage_eq (hstate : s.windows[window]? = some state) (run : AgentUsage → SearchServer) :
    with_usage s window run = run state.usage := by
  rw [with_usage, hstate, Option.elim_some]

/-- The retrieval of an open budget, in one await or in two. -/
theorem awaits_retrieval (deps : ServerDeps) (hcall : s.calls[i]? = some call) (hstate : s.windows[window]? = some state)
    (active : ActiveVersion) (before : AgentUsage) :
    (s.set_stage i (.search window active before)).Awaits deps i
      (search_answer deps s i call window active before
        (ranked_rows deps.toBrokerDeps call.requester none (search_hits deps.toBrokerDeps s.db call.query active.build_seq)
          (fetch_artifacts deps.platform s.db
            ((hit_scores (search_hits deps.toBrokerDeps s.db call.query active.build_seq)).map (·.1)) active.build_seq) [])
        state.usage) := by
  generalize hhits : search_hits deps.toBrokerDeps s.db call.query active.build_seq = hits
  have hanswer : ∀ (stage : SearchStage) (artifacts : List ArtifactRow),
      search_answer deps (s.set_stage i stage) i { call with stage } window active before artifacts state.usage =
        search_answer deps s i call window active before artifacts state.usage := by
    intro stage artifacts
    show ((s.set_usage window _).set_stage i stage).set_stage i _ = _
    exact SearchServer.set_stage_set_stage ..
  have hsearch : resume_search deps (s.set_stage i (.search window active before)) i
        { call with stage := .search window active before } =
      search_search deps (s.set_stage i (.search window active before)) i
        { call with stage := .search window active before } window active before state.usage := by
    show with_usage (s.set_stage i (.search window active before)) window (search_search deps _ i _ window active before) = _
    exact with_usage_eq (show (s.set_stage i _).windows[window]? = some state from hstate) _
  have hfirst := SearchServer.awaits_resume deps hcall (.search window active before)
  rw [hsearch, search_search, show (s.set_stage i _).db = s.db from rfl, hhits] at hfirst
  by_cases hempty : hits.isEmpty = true
  · rw [if_pos hempty, hanswer] at hfirst
    rw [ranked_rows_of_no_hit hempty]
    exact hfirst
  · rw [if_neg hempty, SearchServer.set_stage_set_stage] at hfirst
    have hhydrate : resume_search deps (s.set_stage i (.hydrate window active before hits)) i
          { call with stage := .hydrate window active before hits } =
        search_hydrate deps (s.set_stage i (.hydrate window active before hits)) i
          { call with stage := .hydrate window active before hits } window active before hits state.usage := by
      show with_usage (s.set_stage i (.hydrate window active before hits)) window
        (search_hydrate deps _ i _ window active before hits) = _
      exact with_usage_eq (show (s.set_stage i _).windows[window]? = some state from hstate) _
    have hsecond := SearchServer.awaits_resume deps hcall (.hydrate window active before hits)
    rw [hhydrate, search_hydrate, hanswer] at hsecond
    exact hfirst.trans hsecond

/-- The answer's row is written before its span. -/
theorem awaits_approved (deps : ServerDeps) (hcall : s.calls[i]? = some call) (before : AgentUsage) (row : KbSearchRow)
    (response : KbSearchResponse) :
    (s.set_stage i (.approved window before row response)).Awaits deps i
      ((s.insert_row row).set_stage i (.done (some response))) := by
  have hfirst := SearchServer.awaits_resume deps hcall (.approved window before row response)
  have hcall' : (s.insert_row row).calls[i]? = some call := hcall
  have hsecond := SearchServer.awaits_resume deps hcall' (.span response)
  have hrow : resume_search deps (s.set_stage i (.approved window before row response)) i
      { call with stage := .approved window before row response } = (s.insert_row row).set_stage i (.span response) := by
    show ((s.insert_row row).set_stage i _).set_stage i _ = _
    exact SearchServer.set_stage_set_stage ..
  have hspan : resume_search deps ((s.insert_row row).set_stage i (.span response)) i
      { call with stage := .span response } = (s.insert_row row).set_stage i (.done (some response)) :=
    SearchServer.set_stage_set_stage ..
  rw [hrow] at hfirst
  rw [hspan] at hsecond
  exact hfirst.trans hsecond

/-- What the answer to some artifacts costs. -/
def answer_tokens (deps : ServerDeps) (artifacts : List ArtifactRow) : Nat :=
  (artifacts.map fun row => estimate_tokens (deps.hit_dump_json (kb_search_hit deps.platform.unicode row))).sum

/-- The answer is charged, and its row is written. -/
theorem awaits_answer (deps : ServerDeps) (hcall : s.calls[i]? = some call) (window : Ref) (active : ActiveVersion)
    (before : AgentUsage) (artifacts : List ArtifactRow) (usage : AgentUsage) :
    ∃ response, (search_answer deps s i call window active before artifacts usage).Awaits deps i
      (((s.set_usage window (usage.add 0 (answer_tokens deps artifacts))).insert_row
        (search_row deps call active (usage.add 0 (answer_tokens deps artifacts)) .approved artifacts
          (answer_tokens deps artifacts))).set_stage i (.done (some response))) := by
  have htokens : ((artifacts.map (kb_search_hit deps.platform.unicode)).map fun hit =>
      estimate_tokens (deps.hit_dump_json hit)).sum = answer_tokens deps artifacts := by
    rw [List.map_map]
    rfl
  unfold search_answer
  dsimp only
  rw [htokens]
  exact ⟨_, awaits_approved deps (show (s.set_usage window _).calls[i]? = some call from hcall) before _ _⟩

/-- So is the row of a denied call, whose window is read once more. -/
theorem awaits_denied (deps : ServerDeps) (hcall : s.calls[i]? = some call) (hstate : s.windows[window]? = some state)
    (row : KbSearchRow) :
    ∃ response, response.results = [] ∧ (s.set_stage i (.denied window row)).Awaits deps i
      ((s.insert_row row).set_stage i (.done (some response))) := by
  set response : KbSearchResponse :=
    { results := []
      budget_remaining := remaining (deps.budget_policy.allowance_for call.requester.subject) state.usage
      notice := some BUDGET_SPENT_NOTICE } with hresponse
  refine ⟨response, rfl, ?_⟩
  have hcall' : (s.insert_row row).calls[i]? = some call := hcall
  have hfirst := SearchServer.awaits_resume deps hcall (.denied window row)
  have hsecond := SearchServer.awaits_resume deps hcall' (.denied_span window response)
  have hrow : resume_search deps (s.set_stage i (.denied window row)) i { call with stage := .denied window row } =
      (s.insert_row row).set_stage i (.denied_span window response) := by
    show with_usage ((s.insert_row row).set_stage i (.denied window row)) window
      (fun usage => ((s.insert_row row).set_stage i _).set_stage i (search_denied deps call window usage)) = _
    rw [with_usage_eq (show ((s.insert_row row).set_stage i (.denied window row)).windows[window]? = some state from hstate)]
    exact SearchServer.set_stage_set_stage ..
  have hspan : resume_search deps ((s.insert_row row).set_stage i (.denied_span window response)) i
      { call with stage := .denied_span window response } = (s.insert_row row).set_stage i (.done (some response)) :=
    SearchServer.set_stage_set_stage ..
  rw [hrow] at hfirst
  rw [hspan] at hsecond
  exact hfirst.trans hsecond

/-- The windows by their keys, as the store has them by their place. -/
theorem get?_usages (key : String × String) :
    s.usages.get? key = (s.store.get? key).map fun window => (s.windows[window]?).elim {} (·.usage) :=
  Dict.get?_map (d := s.store) (k := key) (f := fun window : Ref => (s.windows[window]?).elim ({} : AgentUsage) (·.usage))

/-- What is charged to the window at the back of the store is charged to its key. -/
theorem usages_set_usage {before : Dict (String × String) Ref} {key : String × String}
    (hstore : s.store = before ++ [(key, window)]) (hstate : s.windows[window]? = some state)
    (hothers : ∀ entry ∈ before, entry.1 ≠ key ∧ entry.2 ≠ window) (usage : AgentUsage) :
    (s.set_usage window usage).usages = s.usages.set key usage := by
  have hbefore : (before.map fun entry => (entry.1, ((s.set_usage window usage).windows[entry.2]?).elim {} (·.usage))) =
      before.map fun entry => (entry.1, (s.windows[entry.2]?).elim {} (·.usage)) := by
    refine List.map_congr_left fun entry hentry => ?_
    rw [getElem?_set_usage_of_ne usage (hothers entry hentry).2]
  have hsame : (before.map fun entry => (entry.1, (s.windows[entry.2]?).elim {} (·.usage))).map
      (fun entry => if entry.1 = key then (key, usage) else entry) =
      before.map fun entry => (entry.1, (s.windows[entry.2]?).elim {} (·.usage)) := by
    rw [List.map_map]
    refine List.map_congr_left fun entry hentry => ?_
    exact if_neg (hothers entry hentry).1
  have hset : (s.set_usage window usage).store = s.store := rfl
  simp only [SearchServer.usages, hset, hstore, List.map_append, List.map_cons, List.map_nil, hbefore,
    getElem?_set_usage usage hstate, Option.elim_some, Dict.set, List.any_append, List.any_cons, beq_self_eq_true,
    Bool.true_or, Bool.or_true, if_true, hsame]

/-- The window of a key, at the back of both. -/
theorem window_for_usages (key : String × String)
    (hregistered : ∀ entry ∈ s.store, ∃ state, s.windows[entry.2]? = some state ∧ state.key = entry.1) :
    (s.window_for key).1.usages = window_for s.usages key.1 key.2 ∧
      ∃ state, (s.window_for key).1.windows[(s.window_for key).2]? = some state ∧
        (window_for s.usages key.1 key.2).get? key = some state.usage ∧
        ∀ usage, ((s.window_for key).1.set_usage (s.window_for key).2 usage).usages =
          (window_for s.usages key.1 key.2).set key usage := by
  have hback : ∀ (b : SearchServer) (before : Dict (String × String) Ref) (w : Ref) (state : KbSearchWindow),
      b.store = before ++ [(key, w)] → b.windows[w]? = some state → (∀ entry ∈ before, entry.1 ≠ key ∧ entry.2 ≠ w) →
      b.usages.get? key = some state.usage := by
    intro b before w state hstore hstate hothers
    have hnone : before.get? key = none := by
      rw [Option.eq_none_iff_forall_ne_some]
      intro other hother
      exact (hothers _ (Dict.mem_of_get? hother)).1 rfl
    rw [get?_usages, hstore, Dict.get?_append, hnone, Dict.get?_singleton, if_pos rfl, Option.none_or, Option.map_some,
      hstate, Option.elim_some]
  cases hget : s.store.get? key with
  | some w =>
    obtain ⟨state, hstate, hkey⟩ := hregistered _ (Dict.mem_of_get? hget)
    have hwindow : s.window_for key = ({ s with store := s.store.del key ++ [(key, w)] }, w) := by
      rw [SearchServer.window_for, hget]
    have hothers : ∀ entry ∈ s.store.del key, entry.1 ≠ key ∧ entry.2 ≠ w := by
      intro entry hentry
      obtain ⟨hmem, hne⟩ := List.mem_filter.1 hentry
      refine ⟨by simpa using hne, fun hsame => ?_⟩
      obtain ⟨other, hother, hother_key⟩ := hregistered entry hmem
      rw [hsame, hstate, Option.some.injEq] at hother
      simp [← hother_key, ← hother, hkey] at hne
    have husages : (s.window_for key).1.usages = window_for s.usages key.1 key.2 := by
      rw [hwindow, window_for, get?_usages, hget, Option.map_some, hstate]
      simp [SearchServer.usages, Dict.del, List.filter_map, Function.comp_def, hstate]
    refine ⟨husages, state, ?_, ?_, ?_⟩
    · rw [hwindow]
      exact hstate
    · rw [← husages, hwindow]
      exact hback _ _ w state rfl hstate hothers
    · intro usage
      rw [← husages, hwindow]
      exact usages_set_usage (s := { s with store := s.store.del key ++ [(key, w)] }) rfl hstate hothers usage
  | none =>
    have hwindow : s.window_for key =
        ({ s with
            store := s.store.drop (s.store.length + 1 - MAX_WINDOWS) ++ [(key, s.windows.length)]
            windows := s.windows ++ [{ key }]
            evicted := s.evicted ++ (s.store.take (s.store.length + 1 - MAX_WINDOWS)).map (·.1) }, s.windows.length) := by
      rw [SearchServer.window_for, hget]
    have hold : ∀ entry ∈ s.store, entry.1 ≠ key ∧ entry.2 < s.windows.length := by
      intro entry hentry
      obtain ⟨state, hstate, -⟩ := hregistered entry hentry
      refine ⟨fun hsame => ?_, (List.getElem?_eq_some_iff.1 hstate).1⟩
      obtain ⟨other, hother⟩ := Dict.get?_isSome_of_mem (k := entry.1) (v := entry.2) hentry
      rw [hsame, hget] at hother
      cases hother
    have hothers : ∀ entry ∈ s.store.drop (s.store.length + 1 - MAX_WINDOWS), entry.1 ≠ key ∧ entry.2 ≠ s.windows.length :=
      fun entry hentry => ⟨(hold entry (List.mem_of_mem_drop hentry)).1, (hold entry (List.mem_of_mem_drop hentry)).2.ne⟩
    have hnew : (s.windows ++ [({ key } : KbSearchWindow)])[s.windows.length]? = some { key } := List.getElem?_concat_length
    have husages : (s.window_for key).1.usages = window_for s.usages key.1 key.2 := by
      have hkept : (s.store.drop (s.store.length + 1 - MAX_WINDOWS)).map (fun entry =>
            (entry.1, ((s.windows ++ [({ key } : KbSearchWindow)])[entry.2]?).elim ({} : AgentUsage) (·.usage))) =
          s.usages.drop (s.store.length + 1 - MAX_WINDOWS) := by
        rw [SearchServer.usages, ← List.map_drop]
        refine List.map_congr_left fun entry hentry => ?_
        rw [List.getElem?_append_left (hold entry (List.mem_of_mem_drop hentry)).2]
      have hlength : s.usages.length = s.store.length := List.length_map _
      rw [hwindow, window_for, get?_usages, hget, Option.map_none, hlength, ← hkept]
      simp only [SearchServer.usages, List.map_append, List.map_cons, List.map_nil, hnew, Option.elim_some]
    refine ⟨husages, { key }, ?_, ?_, ?_⟩
    · rw [hwindow]
      exact hnew
    · rw [← husages, hwindow]
      exact hback _ _ s.windows.length { key } rfl hnew hothers
    · intro usage
      rw [← husages, hwindow]
      exact usages_set_usage (s := { s with
        store := s.store.drop (s.store.length + 1 - MAX_WINDOWS) ++ [(key, s.windows.length)]
        windows := s.windows ++ [{ key }]
        evicted := s.evicted ++ (s.store.take (s.store.length + 1 - MAX_WINDOWS)).map (·.1) }) rfl hnew hothers usage

theorem same_window_for (key : String × String) :
    (s.window_for key).1.db = s.db ∧ (s.window_for key).1.calls = s.calls ∧ (s.window_for key).1.rows = s.rows := by
  unfold SearchServer.window_for
  cases s.store.get? key with
  | some window => exact ⟨rfl, rfl, rfl⟩
  | none => exact ⟨rfl, rfl, rfl⟩

theorem set_usage_set_usage (usage usage' : AgentUsage) :
    (s.set_usage window usage).set_usage window usage' = s.set_usage window usage' := by
  unfold SearchServer.set_usage
  rw [List.modify_modify_eq]
  rfl

/-- The lock is taken, and the window looked at. -/
theorem awaits_locked (deps : ServerDeps) (hcall : s.calls[i]? = some call) (hstate : s.windows[window]? = some state)
    (hfree : s.locked window = false) (active : ActiveVersion) :
    (s.set_stage i (.lock window active)).Awaits deps i (search_locked deps s i call window active state.usage) := by
  have hfree' : (s.set_stage i (.lock window active)).locked window = false := by
    simp only [SearchServer.locked, List.any_eq_false, beq_iff_eq] at hfree ⊢
    intro other hother
    obtain ⟨j, hj, rfl⟩ := List.getElem_of_mem hother
    simp only [SearchServer.set_stage, List.getElem_modify]
    split
    · simp
    · exact hfree _ (List.getElem_mem _)
  have hlock : resume_search deps (s.set_stage i (.lock window active)) i { call with stage := .lock window active } =
      search_locked deps (s.set_stage i (.lock window active)) i { call with stage := .lock window active } window active
        state.usage := by
    show (if (s.set_stage i (.lock window active)).locked window then s.set_stage i (.lock window active)
      else with_usage (s.set_stage i (.lock window active)) window (search_locked deps _ i _ window active)) = _
    rw [hfree', if_neg Bool.false_ne_true]
    exact with_usage_eq (show (s.set_stage i _).windows[window]? = some state from hstate) _
  have hsame : search_locked deps (s.set_stage i (.lock window active)) i { call with stage := .lock window active } window
      active state.usage = search_locked deps s i call window active state.usage := by
    unfold search_locked
    dsimp only
    split_ifs
    · show ((s.set_usage window _).set_stage i _).set_stage i _ = _
      exact SearchServer.set_stage_set_stage ..
    · exact SearchServer.set_stage_set_stage ..
  have hawaits := SearchServer.awaits_resume deps hcall (.lock window active)
  rwa [hlock, hsame] at hawaits

/-- A search has ended as the tool does in one go: with its row, and with its charge on the window. -/
structure SearchServer.Ended (s t : SearchServer) (i : Nat) (run : ToolRun) : Prop where
  done : ∃ response, t.calls[i]?.map (·.stage) = some (.done (some response))
  row : ∃ row, t.rows = s.rows ++ [row] ∧ run.db = s.db.insert_event row.toRetrievalEventInsert ∧
    run.reply = .found row.returned_artifact_ids
  windows : t.usages = run.windows

/-- A lone search ends as `kb_search` does, where every window in the store is its key's and no lock is held. -/
theorem kb_search_alone (deps : ServerDeps) (s : SearchServer) (requester : Requester) (query session_key : String)
    {active : ActiveVersion} (hactive : fetch_active_version s.db = some active)
    (hregistered : ∀ entry ∈ s.store, ∃ state, s.windows[entry.2]? = some state ∧ state.key = entry.1)
    (hfree : ∀ window, s.locked window = false) :
    ∃ t, (s.step deps (.begin requester query session_key)).Awaits deps s.calls.length t ∧
      s.Ended t s.calls.length (kb_search deps s.db s.usages requester query session_key active) := by
  set call : SearchCall := { requester, query, session_key } with hcall_eq
  set begun : SearchServer := { s with calls := s.calls ++ [call] } with hbegun
  have hcall : begun.calls[s.calls.length]? = some call := by
    rw [hbegun]
    exact List.getElem?_concat_length
  obtain ⟨husages, state, hstate, hget, hset⟩ := window_for_usages (s := begun) call.key hregistered
  set found := (begun.window_for call.key).1 with hfound
  set window := (begun.window_for call.key).2 with hwindow
  obtain ⟨hdb, hcalls, hrows⟩ := same_window_for (s := begun) call.key
  have hcall' : found.calls[s.calls.length]? = some call := by
    rw [hfound, hcalls]
    exact hcall
  have hfree' : found.locked window = false := by
    have hdone : (call.stage.holds == some window) = false := rfl
    rw [hfound, SearchServer.locked, hcalls, hbegun, List.any_append, List.any_cons, List.any_nil, hdone, Bool.or_false,
      Bool.or_false]
    exact hfree window
  have hlooked : (s.step deps (.begin requester query session_key)).Awaits deps s.calls.length
      (found.set_stage s.calls.length (.lock window active)) := by
    refine .single ?_
    show _ = begun.step deps (.resume s.calls.length)
    rw [SearchServer.step, hcall, Option.elim_some]
    show _ = search_active begun s.calls.length call
    rw [search_active, show begun.db = s.db from rfl, hactive]
  have hlocked := hlooked.trans (awaits_locked deps hcall' hstate hfree' active)
  have husage : ((window_for s.usages session_key requester.subject).get? (session_key, requester.subject)).getD {} =
      state.usage := by
    rw [show (window_for s.usages session_key requester.subject).get? (session_key, requester.subject) = some state.usage
      from hget]
    rfl
  unfold kb_search
  dsimp only
  rw [husage]
  by_cases hopen : kb_budget_open (deps.budget_policy.allowance_for requester.subject) state.usage = true
  · rw [if_pos hopen]
    rw [search_locked, if_pos hopen] at hlocked
    set metered := found.set_usage window (state.usage.add 1 0) with hmetered
    have hmetered_state : metered.windows[window]? = some { state with usage := state.usage.add 1 0 } :=
      getElem?_set_usage _ hstate
    have hcalled : metered.calls[s.calls.length]? = some call := hcall'
    have hretrieved := hlocked.trans (awaits_retrieval deps hcalled hmetered_state active state.usage)
    have hmetered_db : metered.db = s.db := hdb
    rw [hmetered_db] at hretrieved
    set artifacts := ranked_rows deps.toBrokerDeps requester none (search_hits deps.toBrokerDeps s.db query active.build_seq)
      (fetch_artifacts deps.platform s.db
        ((hit_scores (search_hits deps.toBrokerDeps s.db query active.build_seq)).map (·.1)) active.build_seq) []
      with hartifacts
    obtain ⟨response, hanswered⟩ := awaits_answer deps hcalled window active state.usage artifacts
      (state.usage.add 1 0)
    have hcharged : (state.usage.add 1 0).add 0 (answer_tokens deps artifacts) =
        state.usage.add 1 (answer_tokens deps artifacts) := by
      simp [AgentUsage.add]
    rw [hcharged, hmetered, set_usage_set_usage, ← hmetered] at hanswered
    set row := search_row deps call active (state.usage.add 1 (answer_tokens deps artifacts)) .approved artifacts
      (answer_tokens deps artifacts) with hrow
    refine ⟨_, hretrieved.trans hanswered, ⟨response, ?_⟩, ⟨row, ?_, rfl, rfl⟩, ?_⟩
    · exact congrArg (Option.map (·.stage)) (SearchServer.calls_set_stage (s := SearchServer.insert_row _ row) hcall' _)
    · exact congrArg (· ++ [row]) hrows
    · exact hset _
  · rw [if_neg hopen]
    rw [search_locked, if_neg hopen] at hlocked
    set row := search_row deps call active state.usage .denied [] 0 with hrow
    obtain ⟨response, -, hdenied⟩ := awaits_denied deps hcall' hstate row
    refine ⟨_, hlocked.trans hdenied, ⟨response, ?_⟩, ⟨row, ?_, rfl, rfl⟩, ?_⟩
    · exact congrArg (Option.map (·.stage)) (SearchServer.calls_set_stage (s := SearchServer.insert_row _ row) hcall' _)
    · exact congrArg (· ++ [row]) hrows
    · exact husages

end Search

end AgenticKb.ContextBroker

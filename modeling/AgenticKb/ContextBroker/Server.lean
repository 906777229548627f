import AgenticKb.ContextBroker.Tools

open AgenticKb.Lib

namespace AgenticKb.ContextBroker

/-- The server: the database and its process memory, the calls it serves, and, for the record, what the
calls have returned, what cancelled calls of which agents had charged, what each pack was made with and
every registry so far. -/
structure Server where
  db : Database
  store : PackStore := {}
  packs : List PackState := []
  usages : List (Dict String AgentUsage) := []
  windows : Dict (String × String) AgentUsage := []
  calls : List Call := []
  answers : List Answer := []
  forfeits : List (String × Charge) := []
  made_with : List Nat := []
  registries : List Registry := []
deriving DecidableEq, Repr

namespace Server

/-- A server that has just started. -/
def start (db : Database) : Server := { db, registries := [db.toRegistry] }

/-- The pack store and the meters. -/
def broker (s : Server) : Broker :=
  { store := s.store, pack_states := s.packs.map (·.toEvidencePackState), usages := s.usages }

/-- What the meter of a pack reads for an agent. -/
def usage_for (s : Server) (pack : PackState) (subject : String) : AgentUsage :=
  s.broker.usage_for pack.toEvidencePackState subject

/-- A call is inside the pack's `async with pack.lock`. -/
def locked (s : Server) (pack : Ref) : Bool := s.calls.any fun call => call.stage.holds == some pack

def set_usage (s : Server) (pack : PackState) (subject : String) (usage : AgentUsage) : Server :=
  { s with usages := s.usages.modify pack.agent_usage fun usages => usages.set subject usage }

def snapshot (s : Server) (pack : PackState) (subject : String) : PackSnapshot :=
  let usage := s.usage_for pack subject
  { used_run_tokens := pack.used_run_tokens
    agent_requests := usage.requests
    agent_tokens := usage.tokens
    cards := pack.cards
    history_entries := pack.history }

def restore (s : Server) (ref : Ref) (subject : String) (snapshot : PackSnapshot) : Server :=
  match s.packs[ref]? with
  | some pack =>
    { s.set_usage pack subject { requests := snapshot.agent_requests, tokens := snapshot.agent_tokens } with
      packs := s.packs.set ref { pack with
        used_run_tokens := snapshot.used_run_tokens
        cards := snapshot.cards
        history := snapshot.history_entries } }
  | none => s

/-- `charge`, with the request that `request_more` counts, and what it registers in the pack. -/
def charge (s : Server) (subject : String) (charge : Charge) (cards : List EvidenceCard)
    (recorded : Option PastRetrieval) : Server :=
  match s.packs[charge.pack]? with
  | some pack =>
    { s.set_usage pack subject ((s.usage_for pack subject).add charge.requests charge.tokens) with
      packs := s.packs.set charge.pack { pack with
        used_run_tokens := pack.used_run_tokens + charge.tokens
        cards := cards.foldl (fun d card => d.set card.evidence_id card) pack.cards
        history := pack.history ++ recorded.toList } }
  | none => s

def insert_event (s : Server) (event : RetrievalEventInsert) : Server := { s with db := s.db.insert_event event }

def set_stage (s : Server) (i : Nat) (stage : Stage) : Server :=
  { s with calls := s.calls.modify i fun call => { call with stage } }

end Server

section Steps

variable (deps : ServerDeps) (s : Server) (requester : Requester)

/-- The row of a tool error, and the error. -/
def write_error (event : RetrievalEventInsert) (message : String) : Action :=
  .await (.writing { event, reply := .error message })

/-- The uniform wrapper's row for an exception that no tool has ledgered. -/
def unexpected_error (tool_name : String) : Writing := { event := error_event requester tool_name none, reply := .raised }

/-- What a call reads of its pack. -/
def with_pack (pack : Ref) (run : PackState → Action) : Action :=
  match s.packs[pack]? with
  | some state => run state
  | none => .raise

section CreatePack

variable (request : CreatePackRequest) (context_pack_id : String)

def create_query : String := request.task ++ " " ++ request.approved_context_plan

/-- The pack is built around the run's meter; it is stored after its row. -/
def make_pack (active : ActiveVersion) (found : List EvidenceCard) : Action :=
  let budget_tokens := min request.budget_tokens deps.settings.max_run_budget_tokens
  let (cards, used_tokens) := trim_to_budget deps.toBrokerDeps budget_tokens found
  let normalized := normalize_query deps.platform.unicode (create_query request)
  .make
    { context_pack_id
      run_id := request.run_id
      budget_tokens
      used_run_tokens := used_tokens
      agent_usage := (s.broker.usage_for_run request.run_id).2
      kb_version := active.kb_version
      build_seq := active.build_seq
      retrieval_profile := request.retrieval_profile
      cards := cards.foldl (fun d card => d.set card.evidence_id card) []
      history := [{ normalized_query := normalized, evidence_ids := cards.map (·.evidence_id) }] }
    { event :=
        { approved_event requester "context.create_pack" request.run_id active.kb_version (some (create_query request))
            (cards.map (·.artifact_id)) with
          context_pack_id := some context_pack_id
          normalized_query := some normalized
          retrieval_profile := some request.retrieval_profile
          new_evidence_ids := cards.map (·.artifact_id)
          tokens_returned := used_tokens }
      stores := some s.packs.length
      reply := .create_pack s.packs.length cards used_tokens }

def create_active : Action :=
  match fetch_active_version s.db with
  | none => write_error
      { error_event requester "context.create_pack" (some (create_query request)) with run_id := request.run_id }
      MSG_NO_ACTIVE_VERSION
  | some active => .await (.create_search request context_pack_id active)

def create_search (active : ActiveVersion) : Action :=
  let hits := search_hits deps.toBrokerDeps s.db (create_query request) active.build_seq
  if hits.isEmpty then make_pack deps s requester request context_pack_id active []
  else .await (.create_hydrate request context_pack_id active hits)

def create_hydrate (active : ActiveVersion) (hits : List SearchHit) : Action :=
  let artifacts := fetch_artifacts deps.platform s.db ((hit_scores hits).map (·.1)) active.build_seq
  if request.intent.isSome then .await (.create_symbols request context_pack_id active hits artifacts)
  else make_pack deps s requester request context_pack_id active <|
    ranked_cards deps.toBrokerDeps requester none hits artifacts []

def create_symbols (active : ActiveVersion) (hits : List SearchHit) (artifacts : List ArtifactRow) : Action :=
  make_pack deps s requester request context_pack_id active <|
    ranked_cards deps.toBrokerDeps requester request.intent hits artifacts
      (fetch_current_symbol_titles s.db active.build_seq)

end CreatePack

def MAX_READ_PACK_CARDS : Nat := 50

/-- The cards of the pack that the reader may see. -/
def read_hydrate (pack : Ref) (all_cards : List EvidenceCard) (state : PackState) : Action :=
  let artifacts := fetch_artifacts deps.platform s.db (all_cards.map (·.artifact_id)) state.build_seq
  let allowed_ids := (filter_artifacts requester artifacts).map (·.artifact_id)
  let cards := (all_cards.filter fun card => allowed_ids.contains card.artifact_id).take MAX_READ_PACK_CARDS
  .await <| .writing
    { event :=
        { approved_event requester "context.read_pack" state.run_id state.kb_version none [] with
          status := .reused
          context_pack_id := some state.context_pack_id
          retrieval_profile := some state.retrieval_profile
          reused_evidence_ids := cards.map (·.artifact_id)
          cache_hit := true }
      reply := .read_pack pack cards }

section RequestMore

variable (request : RequestMoreRequest) (pack : Ref) (state : PackState)

def more_normalized : String := normalize_query deps.platform.unicode request.question

/-- The row of a `request_more`; an id that is no UUID raises. -/
def more_event (status : EventStatus) (reused new : List String) : Option RetrievalEventInsert := do
  let reused ← reused.mapM deps.parse_uuid
  let new ← new.mapM deps.parse_uuid
  some
    { approved_event requester "context.request_more" state.run_id state.kb_version (some request.question)
        (reused ++ new) with
      status
      context_pack_id := some state.context_pack_id
      normalized_query := some (more_normalized deps request)
      retrieval_profile := some state.retrieval_profile
      reused_evidence_ids := reused
      new_evidence_ids := new }

def more_reused (allowed : List String) (semantic : Bool) : Action :=
  match more_event deps requester request state .reused allowed [] with
  | some event => .await <| .writing
      { event := { event with cache_hit := !semantic, semantic_reuse := semantic }
        lock := some pack
        reply := .request_more pack .reused allowed [] 0 none }
  | none => .raise

def more_refused (status : EventStatus) (denial_reason : Option String) : Action :=
  match more_event deps requester request state status [] [] with
  | some event => .await (.writing { event, lock := some pack, reply := .request_more pack status [] [] 0 denial_reason })
  | none => .raise

/-- The allowances, and then the run's budget. -/
def more_check : Action :=
  let allowance := deps.budget_policy.allowance_for requester.subject
  let usage := s.usage_for state requester.subject
  if allowance.max_requests < usage.requests + 1 then
    more_refused deps requester request pack state .denied <| some <|
      "agent request allowance exhausted: " ++ toString usage.requests ++ "/" ++ toString allowance.max_requests ++
        " requests used"
  else if allowance.max_tokens < usage.tokens + request.max_tokens then
    more_refused deps requester request pack state .denied <| some <|
      "agent token allowance exceeded: " ++ toString usage.tokens ++ " used + " ++ toString request.max_tokens ++
        " requested > " ++ toString allowance.max_tokens ++ " allowed"
  else if state.run_remaining_tokens < request.max_tokens then
    more_refused deps requester request pack state .needs_human_approval none
  else .await (.more_search request pack)

def more_semantic : Action :=
  match find_semantic deps.toBrokerDeps state.history (more_normalized deps request) with
  | some entry =>
    if entry.evidence_ids.isEmpty then more_reused deps requester request pack state [] true
    else .await (.more_semantic request pack entry.evidence_ids)
  | none => more_check deps s requester request pack state

def more_exact : Action :=
  match find_exact state.history (more_normalized deps request) with
  | some entry =>
    if entry.evidence_ids.isEmpty then more_reused deps requester request pack state [] false
    else .await (.more_exact request pack entry.evidence_ids)
  | none => more_semantic deps s requester request pack state

/-- `_authorized_reuse`: what the caller may see of an earlier answer. -/
def authorized_reuse (reused : List String) : Option (List String) :=
  (reused.mapM deps.parse_uuid).map fun ids =>
    let artifacts := filter_artifacts requester (fetch_artifacts deps.platform s.db ids state.build_seq)
    reused.filter (artifacts.map fun row => deps.platform.str_uuid row.artifact_id).contains

/-- An earlier answer is reused if the caller may see some of it; else the call goes on as if there were none. -/
def more_reuse (reused : List String) (semantic : Bool) (otherwise : Action) : Action :=
  match authorized_reuse deps s requester state reused with
  | none => .raise
  | some [] => otherwise
  | some allowed => more_reused deps requester request pack state allowed semantic

/-- The new cards, charged and recorded. -/
def more_charge (cards : List EvidenceCard) : Action :=
  let excluded := request.already_checked_evidence_ids ++ state.cards.map (·.1)
  let (new_cards, tokens) := select_cards deps.toBrokerDeps request.max_tokens excluded cards 0
  let new_ids := new_cards.map (·.evidence_id)
  match more_event deps requester request state .approved [] new_ids with
  | some event =>
    .charge { pack, requests := 1, tokens } new_cards
      (some { normalized_query := more_normalized deps request, evidence_ids := new_ids })
      { event := { event with tokens_returned := tokens }
        reply := .request_more pack .approved [] new_cards tokens none }
  | none => .raise

def more_search : Action :=
  let hits := search_hits deps.toBrokerDeps s.db request.question state.build_seq
  if hits.isEmpty then more_charge deps requester request pack state []
  else .await (.more_hydrate request pack hits)

def more_hydrate (hits : List SearchHit) : Action :=
  let artifacts := fetch_artifacts deps.platform s.db ((hit_scores hits).map (·.1)) state.build_seq
  more_charge deps requester request pack state (ranked_cards deps.toBrokerDeps requester none hits artifacts [])

end RequestMore

section OpenEvidence

variable (request : OpenEvidenceRequest) (pack : Ref) (state : PackState)

def evidence_not_available : String := "evidence not available: " ++ request.evidence_id

/-- `write_audit_error`; a handle outside the pack and one the caller may not see read the same. -/
def open_unavailable : Action :=
  write_error
    { error_event requester "context.open_evidence" (some request.evidence_id) with
      run_id := state.run_id, kb_version := state.kb_version, context_pack_id := some state.context_pack_id }
    (evidence_not_available request)

def open_card : Action :=
  match state.cards.get? request.evidence_id with
  | some card => .await (.open_hydrate request pack card)
  | none => open_unavailable requester request state

def open_hydrate (card : EvidenceCard) : Action :=
  match filter_artifacts requester (fetch_artifacts deps.platform s.db [card.artifact_id] state.build_seq) with
  | row :: _ => .await (.open_lock request pack card (row.body_text.getD ""))
  | [] => open_unavailable requester request state

/-- The row of an `open_evidence`: the artifact is new if the call is approved and reused if it is not. -/
def open_event (card : EvidenceCard) (approved : Bool) (tokens_returned : Nat) : RetrievalEventInsert :=
  { approved_event requester "context.open_evidence" state.run_id state.kb_version none [card.artifact_id] with
    status := if approved then .approved else .denied
    context_pack_id := some state.context_pack_id
    retrieval_profile := some state.retrieval_profile
    new_evidence_ids := if approved then [card.artifact_id] else []
    reused_evidence_ids := if approved then [] else [card.artifact_id]
    tokens_returned }

def open_denied (card : EvidenceCard) (message : String) : Action :=
  .await (.writing
    { event := open_event requester state card false 0, lock := some pack, reply := .error message })

def open_locked (card : EvidenceCard) (body : String) : Action :=
  let cost := min (estimate_tokens body) request.max_tokens
  let allowance := deps.budget_policy.allowance_for requester.subject
  let usage := s.usage_for state requester.subject
  if state.run_remaining_tokens < cost then
    open_denied requester pack state card <|
      "run budget exceeded: expanding " ++ request.evidence_id ++ " costs " ++ toString cost ++ " tokens but only " ++
        toString state.run_remaining_tokens ++ " remain"
  else if allowance.max_tokens < usage.tokens + cost then
    open_denied requester pack state card <|
      "agent token allowance exceeded: expanding " ++ request.evidence_id ++ " costs " ++ toString cost ++
        " tokens but " ++ toString usage.tokens ++ " of " ++ toString allowance.max_tokens ++ " are already used"
  else
    let content := take_chars body (request.max_tokens * CHARS_PER_TOKEN)
    .charge { pack, requests := 0, tokens := cost } [] none
      { event := open_event requester state card true cost
        reply := .open_evidence pack card content cost (scan_for_injection deps.toBrokerDeps [content]) }

end OpenEvidence

section Expand

/-- The query text of an expansion's row: its seeds. -/
def seed_text (request : ExpandRequest) : String := join "," (request.seed_artifact_ids.map deps.platform.str_uuid)

/-- The version is read before the pack is looked up, and the pack's budget and cards before the walk. -/
def expand_active (request : ExpandRequest) : Action :=
  match fetch_active_version s.db with
  | none => write_error (error_event requester "context.expand" (some (seed_text deps request))) MSG_NO_ACTIVE_VERSION
  | some active =>
    let ref := request.context_pack_id.bind s.store.packs.get?
    let pack := ref.bind (s.packs[·]?)
    match request.context_pack_id, ref with
    | some context_pack_id, none =>
      write_error (error_event requester "context.expand" (some context_pack_id)) (unknown_pack context_pack_id)
    | _, ref => .await <| .expand_seeds
        { request
          active
          pack := ref
          effective_budget := effective_budget deps.toBrokerDeps request pack
          pack_artifact_ids := pack_artifact_ids pack }

variable (expansion : Expansion)

def expand_event (response : ExpandResponse) (run_id : String) (context_pack_id : Option String) :
    RetrievalEventInsert :=
  { approved_event requester "context.expand" run_id expansion.active.kb_version
      (some (seed_text deps expansion.request)) (response.cards.map (·.artifact_id)) with
    context_pack_id
    new_evidence_ids := response.cards.map (·.artifact_id)
    tokens_returned := response.tokens_used }

/-- The cards of what the walk found: a pack's expansion waits for its lock, any other one is written. -/
def expand_found (walk : TierWalk) : Action :=
  let rows := (walk.seed_rows ++ walk.rows).filter fun row => !expansion.pack_artifact_ids.contains row.artifact_id
  let (cards, tokens_used, truncated) := take_cards deps.toBrokerDeps expansion.effective_budget rows [] 0
  let response : ExpandResponse := { cards, tokens_used, truncated }
  match expansion.pack with
  | some pack => .await (.expand_lock expansion pack response)
  | none => .await <| .writing
      { event := expand_event deps requester expansion response NO_RUN_SENTINEL none, reply := .expand none response }

/-- One tier ends where its frontier is empty; the inferred one starts around all that was found. -/
def expand_tier (walk : TierWalk) : Action :=
  if !walk.frontier.isEmpty then .await (.expand_edges expansion walk)
  else if expansion.request.include_inferred && !walk.include_inferred then
    let frontier := walk.seeds ++ walk.rows.map (·.artifact_id)
    let walk := { walk with include_inferred := true, frontier }
    if frontier.isEmpty then expand_found deps requester expansion walk
    else .await (.expand_edges expansion walk)
  else expand_found deps requester expansion walk

def expand_seeds : Action :=
  let seed_rows := filter_artifacts requester
    (fetch_artifacts deps.platform s.db expansion.request.seed_artifact_ids expansion.active.build_seq)
  let seeds := (seed_rows.foldl (fun (d : Dict Uuid ArtifactRow) row => d.set row.artifact_id row) []).map (·.1)
  expand_tier deps requester expansion
    { seed_rows, seeds, frontier := seeds, visited := expansion.request.seed_artifact_ids }

def expand_edges (walk : TierWalk) : Action :=
  let (visited, hops) := admitted_hops s.db expansion.active.build_seq none expansion.request.trust_floor
    walk.include_inferred walk.frontier walk.visited
  let walk := { walk with visited }
  if hops.isEmpty then expand_tier deps requester expansion { walk with frontier := [] }
  else .await (.expand_nodes expansion walk (hops.map (·.node)))

def expand_nodes (walk : TierWalk) (neighbor_ids : List Uuid) : Action :=
  let rows := neighbor_ids.filterMap
    (allowed_by_id deps.platform s.db expansion.active.build_seq requester neighbor_ids)
  expand_tier deps requester expansion
    { walk with frontier := rows.map (·.artifact_id), rows := walk.rows ++ rows }

/-- The charge is taken under the lock, whatever the pack has left by now. -/
def expand_locked (pack : Ref) (response : ExpandResponse) (state : PackState) : Action :=
  .charge { pack, requests := 0, tokens := response.tokens_used } response.cards none
    { event := expand_event deps requester expansion response state.run_id (some state.context_pack_id)
      reply := .expand (some pack) response }

end Expand

/-- A call up to its first await. -/
def begin_call (request : Request) : Action :=
  let unknown (context_pack_id : String) := write_error
    (error_event requester request.tool_name (some context_pack_id)) (unknown_pack context_pack_id)
  match request with
  | .create_pack request context_pack_id => .await (.create_active request context_pack_id)
  | .expand request => .await (.expand_active request)
  | .read_pack context_pack_id =>
    match s.store.packs.get? context_pack_id with
    | some pack => with_pack s pack fun state => .await (.read_hydrate pack (state.cards.map (·.2)))
    | none => unknown context_pack_id
  | .request_more request =>
    match s.store.packs.get? request.context_pack_id with
    | some pack => .await (.more_lock request pack)
    | none => unknown request.context_pack_id
  | .open_evidence request =>
    match s.store.packs.get? request.context_pack_id with
    | some pack => with_pack s pack (open_card requester request pack)
    | none => unknown request.context_pack_id

/-- A call from one await to the next; `none` is a call that waits for a lock another one holds. -/
def resume_call (call : Call) : Option Action :=
  let requester := call.requester
  let under_lock (pack : Ref) (run : PackState → Action) := if s.locked pack then none else some (with_pack s pack run)
  match call.stage with
  | .create_active request id => some (create_active s requester request id)
  | .create_search request id active => some (create_search deps s requester request id active)
  | .create_hydrate request id active hits => some (create_hydrate deps s requester request id active hits)
  | .create_symbols request id active hits artifacts =>
    some (create_symbols deps s requester request id active hits artifacts)
  | .read_hydrate pack all_cards => some (with_pack s pack (read_hydrate deps s requester pack all_cards))
  | .more_lock request pack => under_lock pack (more_exact deps s requester request pack)
  | .more_exact request pack reused => some <| with_pack s pack fun state =>
      more_reuse deps s requester request pack state reused false (more_semantic deps s requester request pack state)
  | .more_semantic request pack reused => some <| with_pack s pack fun state =>
      more_reuse deps s requester request pack state reused true (more_check deps s requester request pack state)
  | .more_search request pack => some (with_pack s pack (more_search deps s requester request pack))
  | .more_hydrate request pack hits => some <| with_pack s pack fun state =>
      more_hydrate deps s requester request pack state hits
  | .open_hydrate request pack card => some <| with_pack s pack fun state =>
      open_hydrate deps s requester request pack state card
  | .open_lock request pack card body => under_lock pack fun state =>
      open_locked deps s requester request pack state card body
  | .expand_active request => some (expand_active deps s requester request)
  | .expand_seeds expansion => some (expand_seeds deps s requester expansion)
  | .expand_edges expansion walk => some (expand_edges deps s requester expansion walk)
  | .expand_nodes expansion walk neighbor_ids => some (expand_nodes deps s requester expansion walk neighbor_ids)
  | .expand_lock expansion pack response => under_lock pack (expand_locked deps requester expansion pack response)
  | .writing _ | .done => none

end Steps

/-- The pack that a call looks up after an await: an expansion reads the active version first. -/
def Call.looks_up (call : Call) (db : Database) : Option String :=
  match call.stage with
  | .expand_active request => (fetch_active_version db).bind fun _ => request.context_pack_id
  | _ => none

namespace Server

/-- `packs.get`: the pack a call looks up moves to the back. -/
def look_up (s : Server) (context_pack_id : Option String) : Server :=
  match context_pack_id with
  | some context_pack_id => { s with store := (s.broker.get context_pack_id).1.store }
  | none => s

/-- Carry out what a call does up to its next await. -/
def perform (s : Server) (i : Nat) (call : Call) : Action → Server
  | .await stage => s.set_stage i stage
  | .make pack row =>
    let metered := (s.broker.usage_for_run pack.run_id).1
    { s with
      store := metered.store
      usages := metered.usages
      packs := s.packs ++ [pack]
      made_with := s.made_with ++ [pack.used_run_tokens] : Server }.set_stage i (.writing row)
  | .charge charge cards recorded row =>
    let refund := (s.packs[charge.pack]?).map fun pack => s.snapshot pack call.requester.subject
    (s.charge call.requester.subject charge cards recorded).set_stage i
      (.writing { row with lock := some charge.pack, refund })
  | .raise => s.set_stage i (.writing (unexpected_error call.requester call.tool_name))

/-- `packs.create`. -/
def store_pack (s : Server) (ref : Ref) : Server :=
  match s.packs[ref]? with
  | some pack => { s with store := (s.broker.create ref pack.context_pack_id).store }
  | none => s

/-- The row is in the ledger: the pack is stored and the call returns. -/
def finish (s : Server) (i : Nat) (call : Call) (row : Writing) : Server :=
  let s := row.stores.elim s s.store_pack
  let answer : Answer :=
    { subject := call.requester.subject
      kb_version := row.event.kb_version
      reply := row.reply
      budget_remaining_tokens := row.reply.pack.bind fun ref => (s.packs[ref]?).map (·.run_remaining_tokens) }
  { s with answers := s.answers ++ [answer] : Server }.set_stage i .done

/-- What a call does before its next await, unless it waits for a lock. -/
def go_on (s : Server) (i : Nat) (call : Call) : Option Action → Server
  | some action => (s.look_up (call.looks_up s.db)).perform i call action
  | none => s

/-- The await is over: a row is in the ledger, or the call goes on. -/
def resume (deps : ServerDeps) (s : Server) (i : Nat) (call : Call) : Server :=
  match call.stage with
  | .writing row => (s.insert_event row.event).finish i call row
  | _ => s.go_on i call (resume_call deps s call)

/-- What a failed call has charged is given back. -/
def refund (s : Server) (call : Call) (row : Writing) : Server :=
  match row.reply.charge, row.refund with
  | some charge, some snapshot => s.restore charge.pack call.requester.subject snapshot
  | _, _ => s

/-- The await raises: a charge is given back and the wrapper writes its row. A row whose own write fails
is given up, though it may have landed. -/
def fail (s : Server) (i : Nat) (call : Call) (landed : Bool) : Server :=
  match call.stage with
  | .writing row =>
    let s := (if landed then s.insert_event row.event else s).refund call row
    if row.reply = .raised then s.set_stage i .done
    else s.set_stage i (.writing (unexpected_error call.requester call.tool_name))
  | .done => s
  | _ => s.set_stage i (.writing (unexpected_error call.requester call.tool_name))

/-- The call is cancelled: its locks are left, and nothing is given back or written. -/
def cancel (s : Server) (i : Nat) (call : Call) (landed : Bool) : Server :=
  match call.stage with
  | .writing row =>
    let s := if landed then s.insert_event row.event else s
    { s with forfeits := s.forfeits ++ (row.reply.charge.map (call.requester.subject, ·)).toList : Server }.set_stage i
      .done
  | _ => s.set_stage i .done

/-- A new call. -/
def begin (s : Server) (requester : Requester) (request : Request) : Server :=
  let call : Call := { requester, tool_name := request.tool_name, stage := .done }
  let action := begin_call s requester request
  let s := match request with
    | .create_pack .. | .expand _ => s
    | _ => s.look_up request.context_pack_id
  { s with calls := s.calls ++ [call] : Server }.perform s.calls.length call action

end Server

/-- How a call of a tool without a pack may end early: it raises or it is cancelled, and its row has
landed or not. -/
inductive Interruption where
  | raised (landed : Bool)
  | cancelled (landed : Bool)
deriving DecidableEq, Repr

namespace Server

/-- A call of a tool without a pack, from end to end. -/
def call_tool (deps : ServerDeps) (s : Server) (requester : Requester) (tool : Tool) :
    Option Interruption → Server
  | none =>
    let run := run_tool deps s.db s.windows requester tool
    let answer : Answer := { subject := requester.subject, kb_version := run.kb_version, reply := run.reply }
    { s with db := run.db, windows := run.windows, answers := s.answers ++ [answer] }
  | some (.raised landed) =>
    let run := run_tool deps s.db s.windows requester tool
    let s := { s with db := if landed then run.db else s.db, windows := run.refunded : Server }
    s.insert_event (error_event requester tool.tool_name none)
  | some (.cancelled landed) =>
    let run := run_tool deps s.db s.windows requester tool
    { s with db := if landed then run.db else s.db, windows := run.windows }

/-- The builder writes: the registry and the centrality scores are new, the ledger and the cache stay. -/
def publish (s : Server) (registry : Registry) (centrality_scores : Dict Uuid Rat) : Server :=
  { s with
    db := { s.db with toRegistry := registry, centrality_scores }
    registries := s.registries ++ [registry] }

end Server

/-- What happens next: a call comes in, or its await completes, raises or is cancelled; a tool without a
pack is called; or the builder writes. -/
inductive Event where
  | begin (requester : Requester) (request : Request)
  | resume (call : Nat)
  | fail (call : Nat) (landed : Bool)
  | cancel (call : Nat) (landed : Bool)
  | call (requester : Requester) (tool : Tool) (interruption : Option Interruption)
  | publish (registry : Registry) (centrality_scores : Dict Uuid Rat)

def Server.step (deps : ServerDeps) (s : Server) : Event → Server
  | .begin requester request => s.begin requester request
  | .resume i => (s.calls[i]?).elim s (s.resume deps i)
  | .fail i landed => (s.calls[i]?).elim s fun call => s.fail i call landed
  | .cancel i landed => (s.calls[i]?).elim s fun call => s.cancel i call landed
  | .call requester tool interruption => s.call_tool deps requester tool interruption
  | .publish registry centrality_scores => s.publish registry centrality_scores

end AgenticKb.ContextBroker

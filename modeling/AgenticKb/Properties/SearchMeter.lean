import AgenticKb.ContextBroker.SearchWindow
import AgenticKb.Properties.PackBudget

open AgenticKb.Lib

namespace AgenticKb.ContextBroker

/-- What a charged search found its window at, and the tokens it has been charged. -/
@[simp] def SearchStage.charge : SearchStage → Option (AgentUsage × Nat)
  | .search _ _ before | .hydrate _ _ before _ => some (before, 0)
  | .approved _ before row _ => some (before, row.tokens_returned)
  | _ => none

/-- The window a search has looked up. -/
@[simp] def SearchStage.window : SearchStage → Option Ref
  | .lock window _ => some window
  | stage => stage.holds

/-- The row that is on its way. -/
@[simp] def SearchStage.row : SearchStage → Option KbSearchRow
  | .approved _ _ row _ | .denied _ row | .unserved row | .raised row => some row
  | _ => none

namespace SearchServer

variable (s : SearchServer) (key : String × String)

def approved_rows : List KbSearchRow := s.rows.filter fun row => row.charged_to == some key

end SearchServer

/-- What a list of ledger rows says has been used. -/
def ledger_usage (rows : List KbSearchRow) : AgentUsage :=
  { requests := rows.length, tokens := (rows.map (·.tokens_returned)).sum }

namespace SearchServer

variable (s : SearchServer) (key : String × String)

/-- What the window of a key reads. -/
def meter : AgentUsage := ((s.store.get? key).bind (s.windows[·]?)).elim {} (·.usage)

/-- No call holds the lock of the key's window. -/
def unlocked : Bool := (s.store.get? key).all fun window => !s.locked window

end SearchServer

/-- The calls are within their cap, and the tokens exceed theirs by less than one of the answers. -/
def Covered (allowance : AgentAllowance) (rows : List KbSearchRow) : Prop :=
  (ledger_usage rows).requests ≤ allowance.max_requests ∧
    (allowance.max_tokens < (ledger_usage rows).tokens →
      ∃ row ∈ rows, (ledger_usage rows).tokens - allowance.max_tokens < row.tokens_returned)

/-- Every window that was not evicted and whose lock is free reads what its approved rows say. -/
def MeterIsLedger (deps : ServerDeps) (s : SearchServer) : Prop :=
  ∀ key, key ∉ s.evicted → s.unlocked key = true →
    s.meter key = ledger_usage (s.approved_rows key) ∧
      Covered (deps.budget_policy.allowance_for key.2) (s.approved_rows key)

/-- The call may raise here: no charge is given back whose row is in the ledger. -/
def SearchCall.may_fail (s : SearchServer) (landed : Bool) (call : SearchCall) : Bool :=
  match call.stage with
  | .approved .. => !landed || s.evicted.contains call.key
  | _ => true

/-- The call may be cancelled here: no charge stays without a row. -/
def SearchCall.may_cancel (s : SearchServer) (landed : Bool) (call : SearchCall) : Bool :=
  match call.stage with
  | .search .. | .hydrate .. => s.evicted.contains call.key
  | .approved .. => landed || s.evicted.contains call.key
  | _ => true

def SearchEvent.settles (s : SearchServer) : SearchEvent → Bool
  | .fail i landed => (s.calls[i]?).all (·.may_fail s landed)
  | .cancel i landed => (s.calls[i]?).all (·.may_cancel s landed)
  | _ => true

/-- A window reads what its ledger rows say, and more by what the call that holds its lock has been charged. -/
def Booked (allowance : AgentAllowance) (charge : Option (AgentUsage × Nat)) (usage ledger : AgentUsage) : Prop :=
  match charge with
  | none => usage = ledger
  | some (before, tokens) => before = ledger ∧ usage = before.add 1 tokens ∧ kb_budget_open allowance before = true

/-- The accounts of the windows. A window that was not evicted is the only one of its key. -/
structure Books (deps : ServerDeps) (s : SearchServer) : Prop where
  exclusive : Exclusive (fun call : SearchCall => call.stage.holds) s.calls
  known : ∀ call ∈ s.calls, ∀ window ∈ call.stage.window, ∃ state, s.windows[window]? = some state ∧ state.key = call.key
  registered : ∀ entry ∈ s.store, ∃ state, s.windows[entry.2]? = some state ∧ state.key = entry.1
  current : ∀ window state, s.windows[window]? = some state → state.key ∉ s.evicted → s.store.get? state.key = some window
  unused : ∀ key, key ∉ s.evicted → s.store.get? key = none → s.approved_rows key = []
  rows : ∀ call ∈ s.calls, ∀ row ∈ call.stage.row, row.charged_to = call.stage.charge.map fun _ => call.key
  free : ∀ window state, s.windows[window]? = some state → state.key ∉ s.evicted →
    (∀ call ∈ s.calls, call.stage.holds ≠ some window) → state.usage = ledger_usage (s.approved_rows state.key)
  held : ∀ call ∈ s.calls, ∀ window state, call.stage.holds = some window → s.windows[window]? = some state →
    state.key ∉ s.evicted → Booked (deps.budget_policy.allowance_for state.key.2) call.stage.charge state.usage
      (ledger_usage (s.approved_rows state.key))
  covered : ∀ key, key ∉ s.evicted → Covered (deps.budget_policy.allowance_for key.2) (s.approved_rows key)

theorem covered_nil (allowance : AgentAllowance) : Covered allowance [] := by
  refine ⟨Nat.zero_le _, ?_⟩
  intro hover
  cases hover

theorem books_start (deps : ServerDeps) (db : Database) : Books deps (.start db) where
  exclusive := exclusive_nil
  known := by simp [SearchServer.start]
  registered := by simp [SearchServer.start]
  current := by simp [SearchServer.start]
  unused := by simp [SearchServer.start, SearchServer.approved_rows]
  rows := by simp [SearchServer.start]
  free := by simp [SearchServer.start]
  held := by simp [SearchServer.start]
  covered := fun _ _ => covered_nil _

section Rows

variable {s : SearchServer} {key : String × String} {row : KbSearchRow}

theorem ledger_usage_concat (rows : List KbSearchRow) (row : KbSearchRow) :
    ledger_usage (rows ++ [row]) = (ledger_usage rows).add 1 row.tokens_returned := by
  simp only [ledger_usage, AgentUsage.add, List.length_append, List.length_singleton, List.map_append, List.sum_append,
    List.map_cons, List.map_nil, List.sum_singleton]

/-- An answer to an open budget keeps within the caps. -/
theorem Covered.answer {allowance : AgentAllowance} {rows : List KbSearchRow}
    (hopen : kb_budget_open allowance (ledger_usage rows) = true) : Covered allowance (rows ++ [row]) := by
  simp only [kb_budget_open, Bool.and_eq_true, decide_eq_true_eq] at hopen
  unfold Covered
  rw [ledger_usage_concat]
  refine ⟨hopen.1, ?_⟩
  intro hover
  refine ⟨row, List.mem_append_right _ List.mem_cons_self, ?_⟩
  simp only [AgentUsage.add] at hover ⊢
  omega

theorem approved_rows_append (new : List KbSearchRow) :
    ({ s with rows := s.rows ++ new } : SearchServer).approved_rows key =
      s.approved_rows key ++ new.filter fun row => row.charged_to == some key :=
  List.filter_append ..

end Rows

section Turn

variable {deps : ServerDeps} {s : SearchServer} {i : Nat} {call : SearchCall} {stage : SearchStage} {window : Ref}
  {state : KbSearchWindow}

theorem SearchStage.charge_of_holds (h : stage.holds = none) : stage.charge = none := by
  cases stage with
  | search | hydrate | approved => cases h
  | _ => rfl

theorem SearchStage.window_of_holds (h : stage.holds = some window) : stage.window = some window := by
  cases stage with
  | lock => cases h
  | _ => exact h

theorem not_locked_iff : s.locked window = false ↔ ∀ call ∈ s.calls, call.stage.holds ≠ some window := by
  simp only [SearchServer.locked, List.any_eq_false, beq_iff_eq, ne_eq]

/-- A row that no live window is charged for changes no account. -/
theorem Books.insert_row (h : Books deps s) {row : KbSearchRow} (hrow : ∀ key, row.charged_to = some key → key ∈ s.evicted) :
    Books deps (s.insert_row row) := by
  have hsame : ∀ key, key ∉ s.evicted → (s.insert_row row).approved_rows key = s.approved_rows key := by
    intro key hkey
    have hother : (row.charged_to == some key) = false := by
      rw [beq_eq_false_iff_ne]
      intro heq
      exact hkey (hrow key heq)
    rw [SearchServer.insert_row, approved_rows_append, List.filter_cons_of_neg (by simp [hother]), List.filter_nil,
      List.append_nil]
  constructor
  case exclusive => exact h.exclusive
  case known => exact h.known
  case registered => exact h.registered
  case current => exact h.current
  case rows => exact h.rows
  case unused =>
    intro key hkey hnone
    rw [hsame key hkey]
    exact h.unused key hkey hnone
  case free =>
    intro window state hstate hkey hfree
    rw [hsame _ hkey]
    exact h.free window state hstate hkey hfree
  case held =>
    intro call hcall window state hholds hstate hkey
    rw [hsame _ hkey]
    exact h.held call hcall window state hholds hstate hkey
  case covered =>
    intro key hkey
    rw [hsame key hkey]
    exact h.covered key hkey

/-- A call that holds no lock goes on to an await at which it holds none. -/
theorem Books.move (h : Books deps s) (hcall : s.calls[i]? = some call) (hbefore : call.stage.holds = none)
    (hafter : stage.holds = none)
    (hwindow : ∀ window ∈ stage.window, ∃ state, s.windows[window]? = some state ∧ state.key = call.key)
    (hrow : ∀ row ∈ stage.row, row.charged_to = none) : Books deps (s.set_stage i stage) := by
  have hback : ∀ other ∈ s.calls, ∀ window, other.stage.holds = some window →
      ∃ later ∈ (s.set_stage i stage).calls, later.stage.holds = some window := by
    intro other hother window hholds
    obtain ⟨j, hj⟩ := List.mem_iff_getElem?.1 hother
    have hne : j ≠ i := by
      rintro rfl
      rw [hcall, Option.some.injEq] at hj
      rw [← hj, hbefore] at hholds
      cases hholds
    exact ⟨other, mem_modify_of_ne hj hne, hholds⟩
  constructor
  case exclusive =>
    apply h.exclusive.modify hcall
    intro lock hlock
    rw [hafter] at hlock
    cases hlock
  case known => exact forall_mem_modify (fun _ _ _ _ h => h) h.known hcall hwindow
  case registered => exact h.registered
  case current => exact h.current
  case unused => exact h.unused
  case rows =>
    refine forall_mem_modify (fun _ _ _ _ h => h) h.rows hcall ?_
    intro row hmem
    rw [hrow row hmem, SearchStage.charge_of_holds hafter]
    rfl
  case free =>
    intro window state hstate hkey hfree
    apply h.free window state hstate hkey
    intro other hother hholds
    obtain ⟨later, hlater, hlocked⟩ := hback other hother window hholds
    exact hfree later hlater hlocked
  case held =>
    refine forall_mem_modify (fun _ _ _ _ h => h) h.held hcall ?_
    intro window state hholds
    rw [hafter] at hholds
    cases hholds
  case covered => exact h.covered

variable {s' : SearchServer} {usage : AgentUsage} {new : List KbSearchRow}

/-- A call that holds its window's lock, or takes it, goes on: only this window and the rows `new` change. -/
structure SearchTurn (s : SearchServer) (i : Nat) (call : SearchCall) (stage : SearchStage) (window : Ref)
    (state : KbSearchWindow) (usage : AgentUsage) (new : List KbSearchRow) (s' : SearchServer) : Prop where
  found : s.calls[i]? = some call
  looks : call.stage.window = some window
  takes : call.stage.holds = some window ∨ s.locked window = false
  leaves : stage.holds = none ∨ stage.holds = some window
  stays : ∀ w ∈ stage.window, w = window
  calls : s'.calls = s.calls.modify i fun call => { call with stage }
  store : s'.store = s.store
  evicted : s'.evicted = s.evicted
  rows : s'.rows = s.rows ++ new
  before : s.windows[window]? = some state
  after : s'.windows[window]? = some { state with usage }
  other : ∀ w, w ≠ window → s'.windows[w]? = s.windows[w]?
  charged : ∀ row ∈ new, ∀ key, row.charged_to = some key → key = call.key

theorem SearchTurn.approved_rows (hturn : SearchTurn s i call stage window state usage new s') (key : String × String) :
    s'.approved_rows key = s.approved_rows key ++ new.filter fun row => row.charged_to == some key := by
  rw [SearchServer.approved_rows, hturn.rows, List.filter_append]
  rfl

/-- The rows of another window are as they were. -/
theorem SearchTurn.approved_rows_of_ne (hturn : SearchTurn s i call stage window state usage new s')
    {key : String × String} (hne : key ≠ call.key) : s'.approved_rows key = s.approved_rows key := by
  rw [hturn.approved_rows, List.filter_eq_nil_iff.2, List.append_nil]
  intro row hmem heq
  exact hne (hturn.charged row hmem key (beq_iff_eq.1 heq))

theorem SearchTurn.window_before (hturn : SearchTurn s i call stage window state usage new s') {w : Ref}
    {st : KbSearchWindow} (hst : s'.windows[w]? = some st) : ∃ old, s.windows[w]? = some old ∧ old.key = st.key := by
  by_cases hw : w = window
  · rw [hw, hturn.after, Option.some.injEq] at hst
    exact ⟨state, hw ▸ hturn.before, by rw [← hst]⟩
  · exact ⟨st, by rw [← hturn.other w hw, hst], rfl⟩

theorem SearchTurn.window_after (hturn : SearchTurn s i call stage window state usage new s') {w : Ref}
    {st : KbSearchWindow} (hst : s.windows[w]? = some st) :
    ∃ later, s'.windows[w]? = some later ∧ later.key = st.key := by
  by_cases hw : w = window
  · rw [hw, hturn.before, Option.some.injEq] at hst
    exact ⟨_, hw ▸ hturn.after, by rw [← hst]⟩
  · exact ⟨st, by rw [hturn.other w hw, hst], rfl⟩

theorem SearchTurn.key (hturn : SearchTurn s i call stage window state usage new s') (h : Books deps s) :
    state.key = call.key := by
  obtain ⟨known, hknown, hkey⟩ := h.known call (List.mem_of_getElem? hturn.found) window hturn.looks
  rw [hturn.before, Option.some.injEq] at hknown
  exact hknown ▸ hkey

/-- A window that was not evicted is the only one of its key. -/
theorem SearchTurn.key_ne (hturn : SearchTurn s i call stage window state usage new s') (h : Books deps s) {w : Ref}
    {st : KbSearchWindow} (hst : s.windows[w]? = some st) (hin : st.key ∉ s.evicted) (hne : w ≠ window) :
    st.key ≠ call.key := by
  intro heq
  have hkey := hturn.key h
  have hw := h.current w st hst hin
  rw [heq, ← hkey, h.current window state hturn.before (by rw [hkey, ← heq]; exact hin), Option.some.injEq] at hw
  exact hne hw.symm

theorem SearchTurn.exclusive (hturn : SearchTurn s i call stage window state usage new s') (h : Books deps s) :
    Exclusive (fun call : SearchCall => call.stage.holds) s'.calls := by
  rw [hturn.calls]
  apply h.exclusive.modify hturn.found
  intro lock hlock
  cases hturn.leaves with
  | inl hnone =>
    rw [hnone] at hlock
    cases hlock
  | inr hsome =>
    rw [hsome, Option.some.injEq] at hlock
    subst hlock
    cases hturn.takes with
    | inl hholds => exact .inl hholds
    | inr hfree => exact .inr (not_locked_iff.1 hfree)

theorem SearchTurn.known (hturn : SearchTurn s i call stage window state usage new s') (h : Books deps s) :
    ∀ call ∈ s'.calls, ∀ w ∈ call.stage.window, ∃ st, s'.windows[w]? = some st ∧ st.key = call.key := by
  rw [hturn.calls]
  have hmoved : ∀ call ∈ s.calls, ∀ w ∈ call.stage.window, ∃ st, s'.windows[w]? = some st ∧ st.key = call.key := by
    intro call hmem w hw
    obtain ⟨st, hst, hin⟩ := h.known call hmem w hw
    obtain ⟨later, hlater, heq⟩ := hturn.window_after hst
    exact ⟨later, hlater, heq.trans hin⟩
  refine forall_mem_modify (fun _ _ _ _ h => h) hmoved hturn.found ?_
  intro w hw
  rw [hturn.stays w hw]
  exact ⟨_, hturn.after, hturn.key h⟩

/-- Another window whose lock is free after the turn had it free before. -/
theorem SearchTurn.free_of_other (hturn : SearchTurn s i call stage window state usage new s') {w : Ref}
    (hne : w ≠ window) (hfree : ∀ call ∈ s'.calls, call.stage.holds ≠ some w) :
    ∀ call ∈ s.calls, call.stage.holds ≠ some w := by
  intro other hmem hholds
  obtain ⟨j, hj⟩ := List.mem_iff_getElem?.1 hmem
  have hother : j ≠ i := by
    rintro rfl
    have heq := hturn.looks
    rw [hturn.found, Option.some.injEq] at hj
    rw [← hj] at hholds
    rw [SearchStage.window_of_holds hholds, Option.some.injEq] at heq
    exact hne heq
  refine hfree other ?_ hholds
  rw [hturn.calls]
  exact mem_modify_of_ne hj hother

/-- No other call holds this call's window. -/
theorem SearchTurn.ne_of_holds (hturn : SearchTurn s i call stage window state usage new s') (h : Books deps s)
    {j : Nat} {other : SearchCall} {w : Ref} (hj : s.calls[j]? = some other) (hne : j ≠ i)
    (hholds : other.stage.holds = some w) : w ≠ window := by
  rintro rfl
  cases hturn.takes with
  | inl hholds' => exact hne (h.exclusive j i other call w hj hturn.found hholds hholds')
  | inr hunlocked => exact not_locked_iff.1 hunlocked other (List.mem_of_getElem? hj) hholds

/-- What the turn owes: the charge that stays is booked against the rows there are now. -/
def Settled (deps : ServerDeps) (key : String × String) (stage : SearchStage) (usage : AgentUsage)
    (rows : List KbSearchRow) : Prop :=
  Booked (deps.budget_policy.allowance_for key.2) stage.charge usage (ledger_usage rows) ∧
    Covered (deps.budget_policy.allowance_for key.2) rows

/-- A turn keeps the accounts when its own window is settled. -/
theorem Books.turn (h : Books deps s) (hturn : SearchTurn s i call stage window state usage new s')
    (hrow : ∀ row ∈ stage.row, row.charged_to = stage.charge.map fun _ => call.key)
    (hsettled : call.key ∉ s.evicted → Settled deps call.key stage usage (s'.approved_rows call.key)) :
    Books deps s' := by
  have hkey := hturn.key h
  constructor
  case exclusive => exact hturn.exclusive h
  case known => exact hturn.known h
  case registered =>
    intro entry hentry
    rw [hturn.store] at hentry
    obtain ⟨st, hst, hin⟩ := h.registered entry hentry
    obtain ⟨later, hlater, heq⟩ := hturn.window_after hst
    exact ⟨later, hlater, heq.trans hin⟩
  case current =>
    intro w st hst hin
    obtain ⟨old, hold, heq⟩ := hturn.window_before hst
    rw [hturn.evicted] at hin
    rw [hturn.store, ← heq]
    rw [← heq] at hin
    exact h.current w old hold hin
  case unused =>
    intro key hin hnone
    rw [hturn.evicted] at hin
    rw [hturn.store] at hnone
    have hne : key ≠ call.key := by
      rintro rfl
      rw [← hkey] at hin hnone
      rw [h.current window state hturn.before hin] at hnone
      cases hnone
    rw [hturn.approved_rows_of_ne hne]
    exact h.unused key hin hnone
  case rows =>
    rw [hturn.calls]
    exact forall_mem_modify (fun _ _ _ _ h => h) h.rows hturn.found hrow
  case free =>
    intro w st hst hin hfree
    rw [hturn.evicted] at hin
    by_cases hw : w = window
    · subst hw
      rw [hturn.after, Option.some.injEq] at hst
      subst hst
      have hnone : stage.holds = none := by
        refine hturn.leaves.resolve_right (hfree { call with stage } ?_)
        rw [hturn.calls]
        exact mem_modify_self hturn.found
      have hbook := (hsettled (hkey ▸ hin)).1
      rw [SearchStage.charge_of_holds hnone] at hbook
      exact hkey ▸ hbook
    · rw [hturn.other w hw] at hst
      rw [hturn.approved_rows_of_ne (hturn.key_ne h hst hin hw)]
      exact h.free w st hst hin (hturn.free_of_other hw hfree)
  case held =>
    rw [hturn.calls]
    intro other hmem w st hholds hst hin
    rw [hturn.evicted] at hin
    obtain ⟨j, hj⟩ := List.mem_iff_getElem?.1 hmem
    cases getElem?_modify_cases hj with
    | inl hself =>
      obtain ⟨rfl, old, hold, rfl⟩ := hself
      have hw : w = window := hturn.stays w (SearchStage.window_of_holds hholds)
      subst hw
      rw [hturn.after, Option.some.injEq] at hst
      subst hst
      exact hkey ▸ (hsettled (hkey ▸ hin)).1
    | inr hrest =>
      have hw := hturn.ne_of_holds h hrest.2 hrest.1 hholds
      rw [hturn.other w hw] at hst
      rw [hturn.approved_rows_of_ne (hturn.key_ne h hst hin hw)]
      exact h.held other (List.mem_of_getElem? hrest.2) w st hholds hst hin
  case covered =>
    intro key hin
    rw [hturn.evicted] at hin
    by_cases heq : key = call.key
    · rw [heq]
      exact (hsettled (heq ▸ hin)).2
    · rw [hturn.approved_rows_of_ne heq]
      exact h.covered key hin

end Turn

section Windows

variable {deps : ServerDeps} {s : SearchServer} {key : String × String}

/-- A window that no eviction has reached is found where it was. -/
theorem get?_drop_of_not_evicted {d : Dict (String × String) Ref} {n : Nat} (h : key ∉ (d.take n).map (·.1)) :
    Dict.get? (d.drop n) key = d.get? key := by
  have hnone : Dict.get? (d.take n) key = none := by
    cases hget : Dict.get? (d.take n) key with
    | none => rfl
    | some window => exact absurd (List.mem_map.2 ⟨(key, window), Dict.mem_of_get? hget, rfl⟩) h
  have hsplit : Dict.get? (d.take n ++ d.drop n) key = d.get? key := by rw [List.take_append_drop]
  rw [Dict.get?_append, hnone, Option.none_or] at hsplit
  exact hsplit

/-- A window that is looked up again moves to the end of the store. -/
theorem Books.touch (h : Books deps s) {window : Ref} (hget : s.store.get? key = some window) :
    Books deps { s with store := s.store.del key ++ [(key, window)] } := by
  have hsame : ∀ key', Dict.get? (s.store.del key ++ [(key, window)]) key' = s.store.get? key' := by
    intro key'
    rw [Dict.get?_append, Dict.get?_del, Dict.get?_singleton]
    by_cases heq : key' = key
    · rw [if_pos heq, if_pos heq, heq, hget, Option.none_or]
    · rw [if_neg heq, if_neg heq, Option.or_none]
  constructor
  case exclusive => exact h.exclusive
  case known => exact h.known
  case rows => exact h.rows
  case free => exact h.free
  case held => exact h.held
  case covered => exact h.covered
  case registered =>
    intro entry hentry
    cases List.mem_append.1 hentry with
    | inl hold => exact h.registered entry (List.mem_filter.1 hold).1
    | inr hnew =>
      rw [List.mem_singleton.1 hnew]
      exact h.registered (key, window) (Dict.mem_of_get? hget)
  case current =>
    intro w state hstate hin
    rw [← h.current w state hstate hin]
    exact hsame _
  case unused =>
    intro key' hin hnone
    exact h.unused key' hin ((hsame key').symm.trans hnone)

/-- A key without a window gets a new one; the oldest `excess` of the store are evicted. -/
theorem Books.open_window (h : Books deps s) (hget : s.store.get? key = none) (excess : Nat) :
    Books deps { s with
      windows := s.windows ++ [{ key }]
      store := s.store.drop excess ++ [(key, s.windows.length)]
      evicted := s.evicted ++ (s.store.take excess).map (·.1) } := by
  have hfound : ∀ key' window, key' ∉ s.evicted ++ (s.store.take excess).map (·.1) →
      s.store.get? key' = some window →
        Dict.get? (s.store.drop excess ++ [(key, s.windows.length)]) key' = some window := by
    intro key' window hin hold
    rw [Dict.get?_append, get?_drop_of_not_evicted fun hmem => hin (List.mem_append_right _ hmem), hold, Option.some_or]
  constructor
  case exclusive => exact h.exclusive
  case known =>
    intro call hcall window hwindow
    obtain ⟨state, hstate, hkey⟩ := h.known call hcall window hwindow
    exact ⟨state, getElem?_of_concat hstate, hkey⟩
  case registered =>
    intro entry hentry
    cases List.mem_append.1 hentry with
    | inl hold =>
      obtain ⟨state, hstate, hkey⟩ := h.registered entry (List.mem_of_mem_drop hold)
      exact ⟨state, getElem?_of_concat hstate, hkey⟩
    | inr hnew =>
      rw [List.mem_singleton.1 hnew]
      exact ⟨_, List.getElem?_concat_length, rfl⟩
  case current =>
    intro window state hstate hin
    cases getElem?_concat_cases hstate with
    | inl hnew =>
      obtain ⟨rfl, rfl⟩ := hnew
      show Dict.get? _ key = _
      rw [Dict.get?_append, get?_drop_of_not_evicted fun hmem => hin (List.mem_append_right _ hmem), hget]
      rw [Option.none_or, Dict.get?_singleton, if_pos rfl]
    | inr hold => exact hfound _ _ hin (h.current window state hold fun hmem => hin (List.mem_append_left _ hmem))
  case unused =>
    intro key' hin hnone
    refine h.unused key' (fun hmem => hin (List.mem_append_left _ hmem)) ?_
    cases hold : s.store.get? key' with
    | none => rfl
    | some window =>
      rw [hfound key' window hin hold] at hnone
      cases hnone
  case rows => exact h.rows
  case free =>
    intro window state hstate hin hfree
    have hin' : state.key ∉ s.evicted := fun hmem => hin (List.mem_append_left _ hmem)
    cases getElem?_concat_cases hstate with
    | inl hnew =>
      obtain ⟨-, rfl⟩ := hnew
      have hnone : s.approved_rows key = [] := h.unused key hin' hget
      show ({} : AgentUsage) = ledger_usage (s.approved_rows key)
      rw [hnone]
      rfl
    | inr hold => exact h.free window state hold hin' hfree
  case held =>
    intro call hcall window state hholds hstate hin
    obtain ⟨state', hstate', -⟩ := h.known call hcall window (SearchStage.window_of_holds hholds)
    have hstate'' : (s.windows ++ [{ key := key }])[window]? = some state' := getElem?_of_concat hstate'
    rw [hstate, Option.some.injEq] at hstate''
    subst hstate''
    exact h.held call hcall window state hholds hstate' fun hmem => hin (List.mem_append_left _ hmem)
  case covered =>
    intro key' hin
    exact h.covered key' fun hmem => hin (List.mem_append_left _ hmem)

/-- A call that is looked up a window gets the one of its key. -/
theorem Books.window_for (h : Books deps s) (key : String × String) :
    Books deps (s.window_for key).1 ∧ (s.window_for key).1.calls = s.calls ∧
      ∃ state, (s.window_for key).1.windows[(s.window_for key).2]? = some state ∧ state.key = key := by
  unfold SearchServer.window_for
  cases hget : s.store.get? key with
  | some window => exact ⟨h.touch hget, rfl, h.registered (key, window) (Dict.mem_of_get? hget)⟩
  | none => exact ⟨h.open_window hget _, rfl, _, List.getElem?_concat_length, rfl⟩

/-- A new call has looked up nothing. -/
theorem Books.begin (h : Books deps s) {call : SearchCall} (hnew : call.stage = .active) :
    Books deps { s with calls := s.calls ++ [call] } := by
  constructor
  case exclusive =>
    apply h.exclusive.append
    rw [hnew]
    rfl
  case known =>
    refine List.forall_mem_append.2 ⟨h.known, List.forall_mem_singleton.2 ?_⟩
    rw [hnew]
    intro window hwindow
    cases hwindow
  case registered => exact h.registered
  case current => exact h.current
  case unused => exact h.unused
  case rows =>
    refine List.forall_mem_append.2 ⟨h.rows, List.forall_mem_singleton.2 ?_⟩
    rw [hnew]
    intro row hrow
    cases hrow
  case free =>
    intro window state hstate hin hfree
    exact h.free window state hstate hin fun other hother => hfree other (List.mem_append_left _ hother)
  case held =>
    refine List.forall_mem_append.2 ⟨h.held, List.forall_mem_singleton.2 ?_⟩
    rw [hnew]
    intro window state hholds
    cases hholds
  case covered => exact h.covered

end Windows

section Step

variable {deps : ServerDeps} {s : SearchServer} {i : Nat} {call : SearchCall} {stage : SearchStage} {window : Ref}
  {before : AgentUsage} {tokens : Nat}

theorem Books.window_of_call (h : Books deps s) (hcall : s.calls[i]? = some call) (hlooks : call.stage.window = some window) :
    ∃ state, s.windows[window]? = some state ∧ state.key = call.key :=
  h.known call (List.mem_of_getElem? hcall) window hlooks

/-- The call that holds a window's lock accounts for what it reads. -/
theorem Books.booked (h : Books deps s) (hcall : s.calls[i]? = some call) (hholds : call.stage.holds = some window)
    {state : KbSearchWindow} (hstate : s.windows[window]? = some state) (hin : call.key ∉ s.evicted) :
    Booked (deps.budget_policy.allowance_for call.key.2) call.stage.charge state.usage
      (ledger_usage (s.approved_rows call.key)) := by
  obtain ⟨known, hknown, hkey⟩ := h.window_of_call hcall (SearchStage.window_of_holds hholds)
  rw [hstate, Option.some.injEq] at hknown
  subst hknown
  rw [← hkey] at hin ⊢
  exact h.held call (List.mem_of_getElem? hcall) window state hholds hstate hin

theorem booked_nil_iff {allowance : AgentAllowance} {usage ledger : AgentUsage} :
    Booked allowance none usage ledger ↔ usage = ledger := Iff.rfl

theorem getElem?_set_usage (usage : AgentUsage) {state : KbSearchWindow} (hstate : s.windows[window]? = some state) :
    (s.set_usage window usage).windows[window]? = some { state with usage } := by
  simp only [SearchServer.set_usage, List.getElem?_modify, if_true, hstate, Option.map_eq_map, Option.map_some]

theorem getElem?_set_usage_of_ne (usage : AgentUsage) {w : Ref} (hne : w ≠ window) :
    (s.set_usage window usage).windows[w]? = s.windows[w]? := by
  simp only [SearchServer.set_usage, List.getElem?_modify, if_neg (Ne.symm hne), Option.map_eq_map, Option.map_id_fun',
    id_eq]

section Turns

variable {state : KbSearchWindow} (hcall : s.calls[i]? = some call) (hlooks : call.stage.window = some window)
  (htakes : call.stage.holds = some window ∨ s.locked window = false)
  (hleaves : stage.holds = none ∨ stage.holds = some window) (hstays : ∀ w ∈ stage.window, w = window)
  (hstate : s.windows[window]? = some state)

include hcall hlooks htakes hleaves hstays hstate

theorem searchTurn_set_stage : SearchTurn s i call stage window state state.usage [] (s.set_stage i stage) where
  found := hcall
  looks := hlooks
  takes := htakes
  leaves := hleaves
  stays := hstays
  calls := rfl
  store := rfl
  evicted := rfl
  rows := (List.append_nil _).symm
  before := hstate
  after := hstate
  other := fun _ _ => rfl
  charged := by simp

theorem searchTurn_set_usage (usage : AgentUsage) :
    SearchTurn s i call stage window state usage [] ((s.set_usage window usage).set_stage i stage) where
  found := hcall
  looks := hlooks
  takes := htakes
  leaves := hleaves
  stays := hstays
  calls := rfl
  store := rfl
  evicted := rfl
  rows := (List.append_nil _).symm
  before := hstate
  after := getElem?_set_usage _ hstate
  other := fun _ hne => getElem?_set_usage_of_ne _ hne
  charged := by simp

end Turns

/-- A call that holds a lock goes on, and nothing else happens. -/
theorem Books.pass (h : Books deps s) (window : Ref) (hcall : s.calls[i]? = some call)
    (hholds : call.stage.holds = some window)
    (hafter : stage.holds = none ∨ stage.holds = some window) (hwindow : ∀ w ∈ stage.window, w = window)
    (hrow : ∀ row ∈ stage.row, row.charged_to = stage.charge.map fun _ => call.key)
    (hcharge : stage.charge = call.stage.charge ∨ call.key ∈ s.evicted) : Books deps (s.set_stage i stage) := by
  have hlooks := SearchStage.window_of_holds hholds
  obtain ⟨state, hstate, hkey⟩ := h.window_of_call hcall hlooks
  refine h.turn (searchTurn_set_stage hcall hlooks (.inl hholds) hafter hwindow hstate) hrow ?_
  intro hin
  refine ⟨?_, h.covered call.key hin⟩
  cases hcharge with
  | inl heq =>
    rw [heq]
    exact h.booked hcall hholds hstate hin
  | inr hmem => exact absurd hmem hin

/-- The row of a charged call is in the ledger, and the call leaves the lock. -/
theorem Books.commit (h : Books deps s) (hcall : s.calls[i]? = some call) {row : KbSearchRow}
    {response : KbSearchResponse} (hstage : call.stage = .approved window before row response)
    (hafter : stage.window = none) (hrow : stage.row = none) : Books deps ((s.insert_row row).set_stage i stage) := by
  have hholds : call.stage.holds = some window := by rw [hstage]; rfl
  have hnone : stage.holds = none := by
    cases hcases : stage.holds with
    | none => rfl
    | some w => rw [SearchStage.window_of_holds hcases] at hafter; exact hafter
  have hcharged : row.charged_to = some call.key := by
    have hrows := h.rows call (List.mem_of_getElem? hcall) row (by rw [hstage]; rfl)
    rw [hrows, hstage]
    rfl
  have hlooks := SearchStage.window_of_holds hholds
  obtain ⟨state, hstate, -⟩ := h.window_of_call hcall hlooks
  have hturn : SearchTurn s i call stage window state state.usage [row] ((s.insert_row row).set_stage i stage) :=
    { found := hcall, looks := hlooks, takes := .inl hholds, leaves := .inl hnone
      stays := by
        intro w hw
        rw [hafter] at hw
        cases hw
      calls := rfl, store := rfl, evicted := rfl, rows := rfl
      before := hstate, after := hstate, other := fun _ _ => rfl
      charged := by
        intro other hother key heq
        rw [List.mem_singleton.1 hother, hcharged, Option.some.injEq] at heq
        exact heq.symm }
  refine h.turn hturn ?_ ?_
  · intro other hother
    rw [hrow] at hother
    cases hother
  intro hin
  have hbooked := h.booked hcall hholds hstate hin
  rw [hstage] at hbooked
  obtain ⟨rfl, husage, hopen⟩ := hbooked
  rw [hturn.approved_rows, List.filter_cons_of_pos (by simp [hcharged]), List.filter_nil]
  refine ⟨?_, .answer hopen⟩
  rw [SearchStage.charge_of_holds hnone, booked_nil_iff, ledger_usage_concat]
  exact husage

/-- What a charged call gives back is what the ledger says without it. -/
theorem Books.give_back (h : Books deps s) (hcall : s.calls[i]? = some call) (hholds : call.stage.holds = some window)
    (hcharge : call.stage.charge = some (before, tokens)) :
    Books deps ((s.set_usage window before).set_stage i (.refunded window)) := by
  have hlooks := SearchStage.window_of_holds hholds
  obtain ⟨state, hstate, -⟩ := h.window_of_call hcall hlooks
  refine h.turn (searchTurn_set_usage hcall hlooks (.inl hholds) (.inr rfl) ?_ hstate before) (by simp) ?_
  · intro w hw
    exact (Option.some.inj hw).symm
  · intro hin
    have hbooked := h.booked hcall hholds hstate hin
    rw [hcharge] at hbooked
    exact ⟨hbooked.1, h.covered call.key hin⟩

/-- The budget check under the free lock: the ledger is what the window reads. -/
theorem Books.lock (h : Books deps s) (hcall : s.calls[i]? = some call) {active : ActiveVersion}
    (hstage : call.stage = .lock window active) (hfree : s.locked window = false) {state : KbSearchWindow}
    (hstate : s.windows[window]? = some state) : Books deps (search_locked deps s i call window active state.usage) := by
  have hlooks : call.stage.window = some window := by rw [hstage]; rfl
  obtain ⟨known, hknown, hkey⟩ := h.window_of_call hcall hlooks
  rw [hstate, Option.some.injEq] at hknown
  subst hknown
  have hledger : call.key ∉ s.evicted → state.usage = ledger_usage (s.approved_rows call.key) := by
    intro hin
    rw [← hkey] at hin ⊢
    exact h.free window state hstate hin (not_locked_iff.1 hfree)
  have hsole : ∀ w ∈ some window, w = window := fun w hw => (Option.some.inj hw).symm
  unfold search_locked
  by_cases hopen : kb_budget_open (deps.budget_policy.allowance_for call.requester.subject) state.usage = true
  · rw [if_pos hopen]
    refine h.turn (searchTurn_set_usage hcall hlooks (.inr hfree) (.inr rfl) ?_ hstate _) (by simp) ?_
    · exact hsole
    intro hin
    exact ⟨⟨hledger hin, rfl, hopen⟩, h.covered call.key hin⟩
  · rw [if_neg hopen]
    refine h.turn (searchTurn_set_stage hcall hlooks (.inr hfree) (.inr rfl) hsole hstate) ?_ ?_
    · intro row hrow
      rw [← Option.some.inj hrow]
      rfl
    · intro hin
      exact ⟨hledger hin, h.covered call.key hin⟩

/-- The answer's tokens are charged on top of its request. -/
theorem Books.answer (h : Books deps s) (hcall : s.calls[i]? = some call) (hholds : call.stage.holds = some window)
    (hcharge : call.stage.charge = some (before, 0)) {active : ActiveVersion} {artifacts : List ArtifactRow}
    {state : KbSearchWindow} (hstate : s.windows[window]? = some state) :
    Books deps (search_answer deps s i call window active before artifacts state.usage) := by
  have hlooks := SearchStage.window_of_holds hholds
  have hsole : ∀ w ∈ some window, w = window := fun w hw => (Option.some.inj hw).symm
  unfold search_answer
  dsimp only
  generalize ((artifacts.map (kb_search_hit deps.platform.unicode)).map fun hit =>
    estimate_tokens (deps.hit_dump_json hit)).sum = tokens
  refine h.turn (searchTurn_set_usage hcall hlooks (.inl hholds) (.inr rfl) ?_ hstate _) ?_ ?_
  · exact hsole
  · intro row hrow
    rw [← Option.some.inj hrow]
    rfl
  · intro hin
    have hbooked := h.booked hcall hholds hstate hin
    rw [hcharge] at hbooked
    obtain ⟨hbefore, husage, hopen⟩ := hbooked
    refine ⟨⟨hbefore, ?_, hopen⟩, h.covered call.key hin⟩
    rw [husage]
    simp only [AgentUsage.add, search_row, Nat.add_zero]

theorem raised_unpaid : ∀ row ∈ (search_raised call).row, row.charged_to = none := by
  intro row hrow
  rw [← Option.some.inj hrow]
  rfl

/-- A row that is on its way from a call without a charge. -/
theorem Books.unpaid (h : Books deps s) (hcall : s.calls[i]? = some call) (row : KbSearchRow)
    (hcharge : call.stage.charge = none) (hrow : call.stage.row = some row) : Books deps (s.insert_row row) := by
  apply h.insert_row
  intro key hkey
  have hnone := h.rows call (List.mem_of_getElem? hcall) row hrow
  rw [hcharge, hkey] at hnone
  cases hnone

theorem calls_insert_landed (landed : Bool) (row : KbSearchRow) : (s.insert_landed landed row).calls = s.calls := by
  cases landed with
  | true => rfl
  | false => rfl

/-- A row that lands from a call without a charge, or from one whose window was evicted, changes no account. -/
theorem Books.landed (h : Books deps s) (hcall : s.calls[i]? = some call) {row : KbSearchRow}
    (hrow : call.stage.row = some row) (landed : Bool)
    (hin : landed = true → call.stage.charge = none ∨ call.key ∈ s.evicted) :
    Books deps (s.insert_landed landed row) := by
  cases landed with
  | false => exact h
  | true =>
    apply h.insert_row
    intro key hkey
    have hrows := h.rows call (List.mem_of_getElem? hcall) row hrow
    rw [hkey] at hrows
    cases hcharge : call.stage.charge with
    | none =>
      rw [hcharge] at hrows
      cases hrows
    | some charge =>
      rw [hcharge, Option.map_some, Option.some.injEq] at hrows
      have hevicted := (hin rfl).resolve_left (by rw [hcharge]; exact Option.some_ne_none charge)
      exact hrows ▸ hevicted

theorem Books.resume (h : Books deps s) (hcall : s.calls[i]? = some call) : Books deps (resume_search deps s i call) := by
  cases hstage : call.stage with
  | active =>
    have hfree : call.stage.holds = none := by rw [hstage]; rfl
    simp only [resume_search, hstage, search_active]
    cases fetch_active_version s.db with
    | none =>
      refine h.move hcall hfree rfl (by simp [search_unserved]) ?_
      intro row hrow
      rw [← Option.some.inj hrow]
      rfl
    | some active =>
      obtain ⟨hbooks, hcalls, state, hstate, hkey⟩ := h.window_for call.key
      refine hbooks.move (hcalls ▸ hcall) hfree rfl ?_ (by simp)
      intro window hwindow
      rw [← Option.some.inj hwindow]
      exact ⟨state, hstate, hkey⟩
  | lock window active =>
    simp only [resume_search, hstage]
    by_cases hlocked : s.locked window = true
    · rw [if_pos hlocked]
      exact h
    · rw [if_neg hlocked]
      have hlooks : call.stage.window = some window := by rw [hstage]; rfl
      obtain ⟨state, hstate, -⟩ := h.window_of_call hcall hlooks
      simp only [with_usage, hstate, Option.elim_some]
      exact h.lock hcall hstage (Bool.eq_false_iff.2 hlocked) hstate
  | search window active before =>
    have hholds : call.stage.holds = some window := by rw [hstage]; rfl
    obtain ⟨state, hstate, -⟩ := h.window_of_call hcall (SearchStage.window_of_holds hholds)
    simp only [resume_search, hstage, with_usage, hstate, Option.elim_some, search_search]
    split
    · exact h.answer hcall hholds (by rw [hstage]; rfl) hstate
    · refine h.pass window hcall hholds (.inr rfl) ?_ (by simp) (.inl (by rw [hstage]; rfl))
      intro w hw
      exact (Option.some.inj hw).symm
  | hydrate window active before hits =>
    have hholds : call.stage.holds = some window := by rw [hstage]; rfl
    obtain ⟨state, hstate, -⟩ := h.window_of_call hcall (SearchStage.window_of_holds hholds)
    simp only [resume_search, hstage, with_usage, hstate, Option.elim_some, search_hydrate]
    exact h.answer hcall hholds (by rw [hstage]; rfl) hstate
  | approved window before row response =>
    simp only [resume_search, hstage]
    exact h.commit hcall hstage rfl rfl
  | refunded window =>
    simp only [resume_search, hstage]
    refine h.pass window hcall (by rw [hstage]; rfl) (.inl rfl) (by simp [search_raised]) ?_ (.inl (by rw [hstage]; rfl))
    exact raised_unpaid
  | denied window row =>
    have hholds : call.stage.holds = some window := by rw [hstage]; rfl
    obtain ⟨state, hstate, -⟩ := h.window_of_call hcall (SearchStage.window_of_holds hholds)
    have hbooks := h.unpaid hcall row (by rw [hstage]; rfl) (by rw [hstage]; rfl)
    simp only [resume_search, hstage, with_usage, SearchServer.insert_row, hstate, Option.elim_some]
    refine hbooks.pass window hcall hholds (.inr rfl) ?_ (by simp [search_denied]) (.inl (by rw [hstage]; rfl))
    intro w hw
    exact (Option.some.inj hw).symm
  | denied_span window response =>
    simp only [resume_search, hstage]
    exact h.pass window hcall (by rw [hstage]; rfl) (.inl rfl) (by simp)
      (by simp) (.inl (by rw [hstage]; rfl))
  | span response =>
    simp only [resume_search, hstage]
    exact h.move hcall (by rw [hstage]; rfl) rfl (by simp) (by simp)
  | unserved row =>
    simp only [resume_search, hstage]
    have hbooks := h.unpaid hcall row (by rw [hstage]; rfl) (by rw [hstage]; rfl)
    exact hbooks.move hcall (by rw [hstage]; rfl) rfl (by simp) (by simp)
  | raised row =>
    simp only [resume_search, hstage]
    have hbooks := h.unpaid hcall row (by rw [hstage]; rfl) (by rw [hstage]; rfl)
    exact hbooks.move hcall (by rw [hstage]; rfl) rfl (by simp) (by simp)
  | done response =>
    simp only [resume_search, hstage]
    exact h

/-- A call that waits for the lock or looks for the version raises or is cancelled. -/
theorem Books.drop (h : Books deps s) (hcall : s.calls[i]? = some call) (hbefore : call.stage.holds = none)
    (hafter : stage.window = none) (hrow : ∀ row ∈ stage.row, row.charged_to = none) :
    Books deps (s.set_stage i stage) := by
  refine h.move hcall hbefore ?_ ?_ hrow
  · cases hcases : stage.holds with
    | none => rfl
    | some w =>
      rw [SearchStage.window_of_holds hcases] at hafter
      exact hafter
  · intro w hw
    rw [hafter] at hw
    cases hw

theorem Books.fail (h : Books deps s) (hcall : s.calls[i]? = some call) {landed : Bool}
    (hsettles : call.may_fail s landed = true) : Books deps (fail_search deps s i call landed) := by
  cases hstage : call.stage with
  | active | lock =>
    simp only [fail_search, hstage]
    exact h.drop hcall (by rw [hstage]; rfl) rfl raised_unpaid
  | search | hydrate =>
    simp only [fail_search, hstage]
    exact h.give_back hcall (by rw [hstage]; rfl) (by rw [hstage]; rfl)
  | approved window before row response =>
    simp only [fail_search, hstage]
    have hbooks : Books deps (s.insert_landed landed row) := by
      refine h.landed hcall (by rw [hstage]; rfl) landed ?_
      rintro rfl
      simp only [SearchCall.may_fail, hstage, Bool.not_true, Bool.false_or, List.contains_eq_mem, decide_eq_true_eq]
        at hsettles
      exact .inr hsettles
    rw [← calls_insert_landed landed row] at hcall
    exact hbooks.give_back hcall (by rw [hstage]; rfl) (by rw [hstage]; rfl)
  | denied window row =>
    simp only [fail_search, hstage]
    have hbooks : Books deps (s.insert_landed landed row) :=
      h.landed hcall (by rw [hstage]; rfl) landed fun _ => .inl (by rw [hstage]; rfl)
    rw [← calls_insert_landed landed row] at hcall
    exact hbooks.pass window hcall (by rw [hstage]; rfl) (.inl rfl) (by simp [search_raised]) raised_unpaid
      (.inl (by rw [hstage]; rfl))
  | unserved row =>
    simp only [fail_search, hstage]
    have hbooks : Books deps (s.insert_landed landed row) :=
      h.landed hcall (by rw [hstage]; rfl) landed fun _ => .inl (by rw [hstage]; rfl)
    rw [← calls_insert_landed landed row] at hcall
    exact hbooks.drop hcall (by rw [hstage]; rfl) rfl raised_unpaid
  | raised row =>
    simp only [fail_search, hstage]
    have hbooks : Books deps (s.insert_landed landed row) :=
      h.landed hcall (by rw [hstage]; rfl) landed fun _ => .inl (by rw [hstage]; rfl)
    rw [← calls_insert_landed landed row] at hcall
    exact hbooks.drop hcall (by rw [hstage]; rfl) rfl (by simp)
  | refunded | denied_span | span | done =>
    simp only [fail_search, hstage]
    exact h.resume hcall

theorem Books.cancel (h : Books deps s) (hcall : s.calls[i]? = some call) {landed : Bool}
    (hsettles : call.may_cancel s landed = true) : Books deps (cancel_search s i call landed) := by
  cases hstage : call.stage with
  | active | lock | span =>
    simp only [cancel_search, hstage]
    exact h.drop hcall (by rw [hstage]; rfl) rfl (by simp)
  | search window | hydrate window =>
    simp only [cancel_search, hstage]
    simp only [SearchCall.may_cancel, hstage, List.contains_eq_mem, decide_eq_true_eq] at hsettles
    exact h.pass window hcall (by rw [hstage]; rfl) (.inl rfl) (by simp) (by simp) (.inr hsettles)
  | approved window before row response =>
    simp only [cancel_search, hstage]
    cases landed with
    | true => exact h.commit hcall hstage rfl rfl
    | false =>
      simp only [SearchCall.may_cancel, hstage, Bool.false_or, List.contains_eq_mem, decide_eq_true_eq] at hsettles
      exact h.pass window hcall (by rw [hstage]; rfl) (.inl rfl) (by simp) (by simp) (.inr hsettles)
  | denied window row =>
    simp only [cancel_search, hstage]
    have hbooks : Books deps (s.insert_landed landed row) :=
      h.landed hcall (by rw [hstage]; rfl) landed fun _ => .inl (by rw [hstage]; rfl)
    rw [← calls_insert_landed landed row] at hcall
    exact hbooks.pass window hcall (by rw [hstage]; rfl) (.inl rfl) (by simp) (by simp)
      (.inl (by rw [hstage]; rfl))
  | refunded window | denied_span window =>
    simp only [cancel_search, hstage]
    exact h.pass window hcall (by rw [hstage]; rfl) (.inl rfl) (by simp) (by simp) (.inl (by rw [hstage]; rfl))
  | unserved row | raised row =>
    simp only [cancel_search, hstage]
    have hbooks : Books deps (s.insert_landed landed row) :=
      h.landed hcall (by rw [hstage]; rfl) landed fun _ => .inl (by rw [hstage]; rfl)
    rw [← calls_insert_landed landed row] at hcall
    exact hbooks.drop hcall (by rw [hstage]; rfl) rfl (by simp)
  | done =>
    simp only [cancel_search, hstage]
    exact h

/-- Every step that settles its charges keeps the accounts. -/
theorem Books.step (h : Books deps s) {event : SearchEvent} (hsettles : event.settles s = true) :
    Books deps (s.step deps event) := by
  cases event with
  | begin requester query session_key => exact h.begin rfl
  | resume i =>
    simp only [SearchServer.step]
    cases hcall : s.calls[i]? with
    | none => exact h
    | some call => exact h.resume hcall
  | fail i landed =>
    simp only [SearchServer.step]
    simp only [SearchEvent.settles] at hsettles
    cases hcall : s.calls[i]? with
    | none => exact h
    | some call =>
      rw [hcall, Option.all_some] at hsettles
      exact h.fail hcall hsettles
  | cancel i landed =>
    simp only [SearchServer.step]
    simp only [SearchEvent.settles] at hsettles
    cases hcall : s.calls[i]? with
    | none => exact h
    | some call =>
      rw [hcall, Option.all_some] at hsettles
      exact h.cancel hcall hsettles
  | publish registry centrality_scores =>
    exact ⟨h.exclusive, h.known, h.registered, h.current, h.unused, h.rows, h.free, h.held, h.covered⟩

/-- What the accounts say of the windows whose locks are free. -/
theorem Books.meterIsLedger (h : Books deps s) : MeterIsLedger deps s := by
  intro key hin hunlocked
  refine ⟨?_, h.covered key hin⟩
  unfold SearchServer.meter
  unfold SearchServer.unlocked at hunlocked
  cases hget : s.store.get? key with
  | none =>
    rw [h.unused key hin hget]
    rfl
  | some window =>
    obtain ⟨state, hstate, hkey⟩ := h.registered (key, window) (Dict.mem_of_get? hget)
    rw [hget, Option.all_some, Bool.not_eq_true'] at hunlocked
    rw [Option.bind_some, hstate, Option.elim_some]
    simp only at hkey
    rw [← hkey] at hin ⊢
    exact h.free window state hstate hin (not_locked_iff.1 hunlocked)

/-- Whatever calls come in and however they interleave and fail: as long as none is cancelled between its charge
and its row, and none gives a charge back whose row was written, every window reads what the ledger says. -/
theorem search_meter_is_ledger (deps : ServerDeps) (db : Database) (events : List SearchEvent)
    (hsettles : Along (SearchServer.step deps) (fun s event => event.settles s = true) (.start db) events) (n : Nat) :
    MeterIsLedger deps ((events.take n).foldl (SearchServer.step deps) (.start db)) := by
  have hrun : Along (SearchServer.step deps) (fun s event => event.settles s = true) (.start db) (events.take n) := by
    rw [← List.take_append_drop n events] at hsettles
    exact ((along_append _ _).1 hsettles).1
  have hbooks : Books deps ((events.take n).foldl (SearchServer.step deps) (.start db)) :=
    hrun.invariant (I := Books deps) (fun s event _ h hok => h.step hok) (books_start deps db)
  exact hbooks.meterIsLedger

end Step

section Runs

/-- A search that finds one of the two files. -/
def finding : ServerDeps := { ServerDeps.plain with search := fun _ _ _ _ => [{ artifact_id := 1, score := 1 }] }

def searches (query : String) : SearchEvent := .begin outsider query "session"

/-- A search that is cancelled while it waits for its hits leaves a request that no row accounts for. -/
theorem search_meter_after_cancel : ¬ MeterIsLedger finding
    ([searches "file", .resume 0, .resume 0, .cancel 0 false].foldl (SearchServer.step finding) (.start file_database)) := by
  intro h
  have hmeter := (h ("session", outsider.subject) (by decide +kernel) (by decide +kernel)).1
  revert hmeter
  decide +kernel

/-- Three searches of one window: the first fails after its charge and gives it back, the second is answered and
uses the window up, the third is denied. -/
def three_searches : List SearchEvent :=
  [searches "file", searches "files", searches "other", .resume 0, .resume 1, .resume 2, .resume 0, .resume 1,
    .resume 0, .fail 0 false, .resume 2, .resume 0] ++ List.replicate 5 (.resume 1) ++ List.replicate 3 (.resume 2)

theorem search_meter_of_three : MeterIsLedger finding
    ((three_searches.take 20).foldl (SearchServer.step finding) (.start file_database)) :=
  search_meter_is_ledger finding file_database three_searches (by decide +kernel) 20

end Runs

end AgenticKb.ContextBroker

import Mathlib.Data.List.Induction

namespace AgenticKb.Lib

section Runs

variable {State Input : Type*} (step : State → Input → State) (ok : State → Input → Prop)

/-- Every step of a run meets `ok` at the state it starts from. -/
def Along : State → List Input → Prop
  | _, [] => True
  | s, x :: xs => ok s x ∧ Along (step s x) xs

instance decidableAlong [∀ s x, Decidable (ok s x)] : ∀ s xs, Decidable (Along step ok s xs)
  | _, [] => .isTrue trivial
  | s, x :: xs =>
    have := decidableAlong (step s x) xs
    inferInstanceAs (Decidable (ok s x ∧ _))

theorem along_append {s : State} {xs ys : List Input} :
    Along step ok s (xs ++ ys) ↔ Along step ok s xs ∧ Along step ok (xs.foldl step s) ys := by
  induction xs generalizing s with
  | nil => simp [Along]
  | cons x xs ih => simp [Along, ih, and_assoc]

variable {step ok}

/-- An invariant that every admissible step keeps holds at the end of every admissible run. -/
theorem Along.invariant {I : State → Prop} {xs : List Input}
    (hstep : ∀ s x, x ∈ xs → I s → ok s x → I (step s x)) {s : State} (hinit : I s)
    (hrun : Along step ok s xs) : I (xs.foldl step s) := by
  induction xs generalizing s with
  | nil => exact hinit
  | cons x xs ih =>
    exact ih (fun s y hy => hstep s y (List.mem_cons_of_mem x hy))
      (hstep s x List.mem_cons_self hinit hrun.1) hrun.2

theorem Along.mono {ok' : State → Input → Prop} (himp : ∀ s x, ok s x → ok' s x)
    {s : State} {xs : List Input} (hrun : Along step ok s xs) : Along step ok' s xs := by
  induction xs generalizing s with
  | nil => trivial
  | cons x xs ih => exact ⟨himp _ _ hrun.1, ih hrun.2⟩

/-- What an invariant and the admissibility of a step imply holds at every step of an admissible run. -/
theorem Along.imp_of_invariant {ok' : State → Input → Prop} {I : State → Prop} {xs : List Input}
    (hstep : ∀ s x, x ∈ xs → I s → ok s x → I (step s x)) (himp : ∀ s x, x ∈ xs → I s → ok s x → ok' s x)
    {s : State} (hinit : I s) (hrun : Along step ok s xs) : Along step ok' s xs := by
  induction xs generalizing s with
  | nil => trivial
  | cons x xs ih =>
    exact ⟨himp s x List.mem_cons_self hinit hrun.1,
      ih (fun s y hy => hstep s y (List.mem_cons_of_mem x hy)) (fun s y hy => himp s y (List.mem_cons_of_mem x hy))
        (hstep s x List.mem_cons_self hinit hrun.1) hrun.2⟩

/-- What a step keeps exactly where it is admissible holds at the end of a run exactly where all its steps are. -/
theorem along_iff_of_step {I P : State → Prop} (hkeep : ∀ s x, I s → I (step s x))
    (hstep : ∀ s x, I s → (P (step s x) ↔ P s ∧ ok s x)) {s : State} {xs : List Input} (hinit : I s) :
    P (xs.foldl step s) ↔ P s ∧ Along step ok s xs := by
  induction xs generalizing s with
  | nil => exact ⟨fun h => ⟨h, trivial⟩, fun h => h.1⟩
  | cons x xs ih => rw [List.foldl_cons, ih (hkeep s x hinit), hstep s x hinit, and_assoc, Along]

/-- Two step functions that agree on the admissible steps from an invariant's states agree on the
admissible runs. -/
theorem Along.foldl_congr (step' : State → Input → State) {I : State → Prop} {xs : List Input}
    (hstep : ∀ s x, x ∈ xs → I s → ok s x → I (step s x))
    (heq : ∀ s x, x ∈ xs → I s → ok s x → step s x = step' s x) {s : State} (hinit : I s)
    (hrun : Along step ok s xs) : xs.foldl step s = xs.foldl step' s := by
  induction xs generalizing s with
  | nil => rfl
  | cons x xs ih =>
    rw [List.foldl_cons, List.foldl_cons, ← heq s x List.mem_cons_self hinit hrun.1]
    exact ih (fun s y hy => hstep s y (List.mem_cons_of_mem x hy))
      (fun s y hy => heq s y (List.mem_cons_of_mem x hy)) (hstep s x List.mem_cons_self hinit hrun.1) hrun.2

/-- What holds at the start and after every step holds after every prefix of a run, and only that does. -/
theorem forall_take_iff_along {P : State → Prop} {s : State} {xs : List Input} :
    (∀ n, P ((xs.take n).foldl step s)) ↔ P s ∧ Along step (fun s x => P (step s x)) s xs := by
  induction xs generalizing s with
  | nil => simp [Along]
  | cons x xs ih =>
    constructor
    · intro h
      have hrest : ∀ n, P ((xs.take n).foldl step (step s x)) := fun n => h (n + 1)
      exact ⟨h 0, hrest 0, (ih.1 hrest).2⟩
    · intro h n
      cases n with
      | zero => exact h.1
      | succ n => exact ih.2 ⟨h.2.1, h.2.2⟩ n

theorem Along.of_forall {xs : List Input} (h : ∀ s, ∀ x ∈ xs, ok s x) {s : State} :
    Along step ok s xs := by
  induction xs generalizing s with
  | nil => trivial
  | cons x xs ih => exact ⟨h s x List.mem_cons_self, ih fun s y hy => h s y (List.mem_cons_of_mem x hy)⟩

/-- The same for an invariant that speaks of the inputs already taken in. -/
theorem Along.prefix_invariant {I : List Input → State → Prop} {xs : List Input}
    (hstep : ∀ done s x, x ∈ xs → I done s → ok s x → I (done ++ [x]) (step s x)) {s : State}
    (hinit : I [] s) (hrun : Along step ok s xs) : I xs (xs.foldl step s) := by
  induction xs using List.reverseRecOn with
  | nil => exact hinit
  | append_singleton xs x ih =>
    obtain ⟨hxs, hx⟩ := (along_append step ok).1 hrun
    have hdone := ih (fun done s y hy => hstep done s y (List.mem_append_left _ hy)) hxs
    rw [List.foldl_append]
    exact hstep xs _ x (List.mem_append_right _ List.mem_cons_self) hdone hx.1

end Runs

section PartialRuns

variable {State Input : Type*} (step : State → Input → Option State) (ok : State → Input → Prop)

/-- Every step of a run that may stop early meets `ok` at the state it starts from. -/
def AlongM : State → List Input → Prop
  | _, [] => True
  | s, x :: xs => ok s x ∧ ∀ s', step s x = some s' → AlongM s' xs

instance decidableAlongM [∀ s x, Decidable (ok s x)] : ∀ s xs, Decidable (AlongM step ok s xs)
  | _, [] => .isTrue trivial
  | s, x :: xs =>
    have : ∀ s', Decidable (AlongM step ok s' xs) := fun s' => decidableAlongM s' xs
    match hstep : step s x with
    | none => decidable_of_iff (ok s x) (by simp [AlongM, hstep])
    | some s' => decidable_of_iff (ok s x ∧ AlongM step ok s' xs) (by simp [AlongM, hstep])

variable {step ok}

theorem AlongM.mono {ok' : State → Input → Prop} (himp : ∀ s x, ok s x → ok' s x) {s : State}
    {xs : List Input} (hrun : AlongM step ok s xs) : AlongM step ok' s xs := by
  induction xs generalizing s with
  | nil => trivial
  | cons x xs ih => exact ⟨himp _ _ hrun.1, fun s' hs' => ih (hrun.2 s' hs')⟩

theorem AlongM.of_forall {xs : List Input} (h : ∀ s, ∀ x ∈ xs, ok s x) {s : State} :
    AlongM step ok s xs := by
  induction xs generalizing s with
  | nil => trivial
  | cons x xs ih =>
    exact ⟨h s x List.mem_cons_self, fun s' _ => ih fun s y hy => h s y (List.mem_cons_of_mem x hy)⟩

/-- An invariant that every admissible step keeps holds when an admissible run completes. -/
theorem AlongM.invariant {I : State → Prop} {xs : List Input}
    (hstep : ∀ s x s', x ∈ xs → I s → ok s x → step s x = some s' → I s') {s s' : State}
    (hinit : I s) (hrun : AlongM step ok s xs) (hend : xs.foldlM step s = some s') : I s' := by
  induction xs generalizing s with
  | nil =>
    simp only [List.foldlM_nil, Option.pure_def, Option.some.injEq] at hend
    exact hend ▸ hinit
  | cons x xs ih =>
    simp only [List.foldlM_cons, Option.bind_eq_bind, Option.bind_eq_some_iff] at hend
    obtain ⟨mid, hmid, hrest⟩ := hend
    exact ih (fun s y s' hy => hstep s y s' (List.mem_cons_of_mem x hy))
      (hstep s x mid List.mem_cons_self hinit hrun.1 hmid) (hrun.2 mid hmid) hrest

end PartialRuns

section Folds

variable {State Input : Type*}

/-- An invariant of a loop that may stop early: it holds of the state a completed loop returns. -/
theorem foldlM_invariant {I : State → Prop} {step : State → Input → Option State} {xs : List Input}
    (hstep : ∀ s x s', x ∈ xs → I s → step s x = some s' → I s') {s s' : State}
    (hinit : I s) (hrun : xs.foldlM step s = some s') : I s' := by
  induction xs generalizing s with
  | nil =>
    simp only [List.foldlM_nil, Option.pure_def, Option.some.injEq] at hrun
    exact hrun ▸ hinit
  | cons x xs ih =>
    simp only [List.foldlM_cons, Option.bind_eq_bind, Option.bind_eq_some_iff] at hrun
    obtain ⟨mid, hmid, hrest⟩ := hrun
    exact ih (fun s y s' hy => hstep s y s' (List.mem_cons_of_mem x hy))
      (hstep s x mid List.mem_cons_self hinit hmid) hrest

/-- The same for an invariant that speaks of the inputs already taken in. -/
theorem foldlM_prefix_invariant {I : List Input → State → Prop} {step : State → Input → Option State}
    {xs : List Input} (hstep : ∀ done s x s', x ∈ xs → I done s → step s x = some s' → I (done ++ [x]) s')
    {s s' : State} (hinit : I [] s) (hrun : xs.foldlM step s = some s') : I xs s' := by
  induction xs using List.reverseRecOn generalizing s' with
  | nil =>
    simp only [List.foldlM_nil, Option.pure_def, Option.some.injEq] at hrun
    exact hrun ▸ hinit
  | append_singleton xs x ih =>
    rw [List.foldlM_append] at hrun
    simp only [Option.bind_eq_bind, Option.bind_eq_some_iff, List.foldlM_cons, List.foldlM_nil,
      Option.pure_def, Option.some.injEq] at hrun
    obtain ⟨mid, hmid, s'', hlast, rfl⟩ := hrun
    have hdone := ih (fun done s y s' hy => hstep done s y s' (List.mem_append_left _ hy)) hmid
    exact hstep xs mid x s'' (List.mem_append_right _ List.mem_cons_self) hdone hlast

theorem foldl_invariant {I : State → Prop} {step : State → Input → State} {xs : List Input}
    (hstep : ∀ s x, x ∈ xs → I s → I (step s x)) {s : State} (hinit : I s) :
    I (xs.foldl step s) :=
  List.foldlRecOn xs step hinit fun s hs x hx => hstep s x hx hs

end Folds

end AgenticKb.Lib

import Mathlib.Algebra.GroupWithZero.Nat
import Mathlib.Algebra.Order.BigOperators.Group.List

namespace AgenticKb.Lib

/-! Tasks that run interleaved, each between two of its awaits at a time, and the locks they hold. -/

section Tasks

variable {Task Lock : Type*} {tasks : List Task} {task : Task} {i : Nat} {f : Task → Task}

/-- One task goes on: a sum over the tasks changes by what it contributes. -/
theorem sum_map_modify (weight : Task → Nat) (h : tasks[i]? = some task) :
    ((tasks.modify i f).map weight).sum + weight task = (tasks.map weight).sum + weight (f task) := by
  induction tasks generalizing i with
  | nil => simp at h
  | cons first tasks ih =>
    cases i with
    | zero =>
      rw [List.getElem?_cons_zero, Option.some.injEq] at h
      subst h
      simp only [List.modify_zero_cons, List.map_cons, List.sum_cons]
      omega
    | succ i =>
      rw [List.getElem?_cons_succ] at h
      have hrest := ih h
      simp only [List.modify_succ_cons, List.map_cons, List.sum_cons]
      omega

theorem getElem?_modify_cases {j : Nat} {other : Task} (h : (tasks.modify i f)[j]? = some other) :
    (j = i ∧ ∃ task, tasks[i]? = some task ∧ other = f task) ∨ (j ≠ i ∧ tasks[j]? = some other) := by
  rw [List.getElem?_modify] at h
  by_cases heq : i = j
  · subst heq
    simp only [if_true, Option.map_eq_map, Option.map_eq_some_iff] at h
    obtain ⟨task, htask, rfl⟩ := h
    exact .inl ⟨rfl, task, htask, rfl⟩
  · simp only [if_neg heq, Option.map_eq_map, Option.map_id_fun', id] at h
    exact .inr ⟨Ne.symm heq, h⟩

theorem mem_modify_self (h : tasks[i]? = some task) : f task ∈ tasks.modify i f := by
  apply List.mem_of_getElem? (i := i)
  simp only [List.getElem?_modify, if_true, h, Option.map_eq_map, Option.map_some]

theorem mem_modify_of_ne {j : Nat} (h : tasks[j]? = some task) (hne : j ≠ i) : task ∈ tasks.modify i f := by
  apply List.mem_of_getElem? (i := j)
  simp only [List.getElem?_modify, if_neg (Ne.symm hne), h, Option.map_eq_map, Option.map_some]

/-- No two tasks hold the same lock. -/
def Exclusive (holds : Task → Option Lock) (tasks : List Task) : Prop :=
  ∀ (i j : Nat) (a b : Task) (lock : Lock), tasks[i]? = some a → tasks[j]? = some b → holds a = some lock →
    holds b = some lock → i = j

variable {holds : Task → Option Lock}

theorem exclusive_nil : Exclusive holds [] := fun _ _ _ _ _ h => by simp at h

/-- A task that goes on keeps a lock it holds or takes one that is free. -/
theorem Exclusive.modify (h : Exclusive holds tasks) (hi : tasks[i]? = some task)
    (hholds : ∀ lock, holds (f task) = some lock →
      holds task = some lock ∨ ∀ other ∈ tasks, holds other ≠ some lock) :
    Exclusive holds (tasks.modify i f) := by
  have hown : ∀ (j : Nat) (b : Task) (lock : Lock), tasks[j]? = some b → holds (f task) = some lock → holds b = some lock → j ≠ i → False := by
    intro j b lock hb hfree hother hne
    cases hholds lock hfree with
    | inl hold => exact hne (h j i b task lock hb hi hother hold)
    | inr hnone => exact hnone b (List.mem_of_getElem? hb) hother
  intro j k a b lock ha hb hla hlb
  cases getElem?_modify_cases ha with
  | inl hj =>
    obtain ⟨rfl, old, hold, rfl⟩ := hj
    rw [hi, Option.some.injEq] at hold
    subst hold
    cases getElem?_modify_cases hb with
    | inl hk => exact hk.1.symm
    | inr hk => exact absurd (hown k b lock hk.2 hla hlb hk.1) id
  | inr hj =>
    cases getElem?_modify_cases hb with
    | inl hk =>
      obtain ⟨rfl, old, hold, rfl⟩ := hk
      rw [hi, Option.some.injEq] at hold
      subst hold
      exact absurd (hown j a lock hj.2 hlb hla hj.1) id
    | inr hk => exact h j k a b lock hj.2 hk.2 hla hlb

theorem Exclusive.append (h : Exclusive holds tasks) (hnew : holds task = none) : Exclusive holds (tasks ++ [task]) := by
  have hold : ∀ (j : Nat) (a : Task) (lock : Lock), (tasks ++ [task])[j]? = some a → holds a = some lock → tasks[j]? = some a := by
    intro j a lock ha hlock
    by_cases hlt : j < tasks.length
    · rwa [List.getElem?_append_left hlt] at ha
    · rw [List.getElem?_append_right (by omega)] at ha
      have hmem := List.mem_of_getElem? ha
      rw [List.mem_singleton] at hmem
      rw [hmem, hnew] at hlock
      simp at hlock
  exact fun j k a b lock ha hb hla hlb => h j k a b lock (hold j a lock ha hla) (hold k b lock hb hlb) hla hlb

/-- The task that came last goes on. -/
theorem modify_concat_length (tasks : List Task) (task : Task) (f : Task → Task) :
    (tasks ++ [task]).modify tasks.length f = tasks ++ [f task] := by
  induction tasks with
  | nil => rfl
  | cons first tasks ih => simp only [List.cons_append, List.length_cons, List.modify_succ_cons, ih]

/-- What holds of every task still does if it holds of the one that went on. -/
theorem forall_mem_modify {P Q : Task → Prop} (h : ∀ (j : Nat) (other : Task), j ≠ i → tasks[j]? = some other → P other → Q other)
    (htasks : ∀ other ∈ tasks, P other) (hi : tasks[i]? = some task) (hnew : Q (f task)) :
    ∀ other ∈ tasks.modify i f, Q other := by
  intro other hother
  obtain ⟨j, hj⟩ := List.mem_iff_getElem?.1 hother
  cases getElem?_modify_cases hj with
  | inl heq =>
    obtain ⟨rfl, old, hold, rfl⟩ := heq
    rw [hi, Option.some.injEq] at hold
    exact hold ▸ hnew
  | inr hne => exact h j other hne.1 hne.2 (htasks other (List.mem_of_getElem? hne.2))

end Tasks

section Records

variable {Record : Type*} {records : List Record} {record other : Record} {i j : Nat}

theorem getElem?_set_cases (h : (records.set i record)[j]? = some other) :
    (j = i ∧ other = record) ∨ (j ≠ i ∧ records[j]? = some other) := by
  rw [List.getElem?_set] at h
  by_cases heq : i = j
  · rw [if_pos heq] at h
    split at h
    · exact .inl ⟨heq.symm, (Option.some.inj h).symm⟩
    · simp at h
  · rw [if_neg heq] at h
    exact .inr ⟨Ne.symm heq, h⟩

theorem getElem?_concat_cases (h : (records ++ [record])[j]? = some other) :
    (j = records.length ∧ other = record) ∨ records[j]? = some other := by
  by_cases hlt : j < records.length
  · rw [List.getElem?_append_left hlt] at h
    exact .inr h
  · rw [List.getElem?_append_right (by omega)] at h
    have hlast := (List.getElem?_eq_some_iff.1 h).1
    rw [List.length_singleton] at hlast
    obtain rfl : j = records.length := by omega
    rw [Nat.sub_self, List.getElem?_cons_zero] at h
    exact .inl ⟨rfl, (Option.some.inj h).symm⟩

theorem getElem?_of_concat (h : records[j]? = some other) : (records ++ [record])[j]? = some other := by
  rw [List.getElem?_append_left (List.getElem?_eq_some_iff.1 h).1]
  exact h

end Records

end AgenticKb.Lib

import Mathlib.Data.List.Induction
import Mathlib.Data.List.Infix

namespace AgenticKb.Lib

/-! What holds of every entry of a record, given what was recorded before it. -/

section History

variable {α : Type*} {P Q : List α → α → Prop} {record : List α} {x : α}

/-- Each entry meets `P` with the entries before it. -/
def AtEach (P : List α → α → Prop) (record : List α) : Prop :=
  ∀ before x after, record = before ++ x :: after → P before x

@[simp] theorem atEach_nil : AtEach P [] := by
  intro before x after h
  exact absurd h.symm (by simp)

/-- An entry of a record that has grown is the new one, or one of the record before. -/
theorem append_singleton_eq {y : α} {before after : List α} (h : record ++ [x] = before ++ y :: after) :
    (after = [] ∧ record = before ∧ x = y) ∨ ∃ rest, after = rest ++ [x] ∧ record = before ++ y :: rest := by
  cases List.eq_nil_or_concat after with
  | inl hnil =>
    rw [hnil] at h
    obtain ⟨hbefore, hlast⟩ := List.append_inj' h rfl
    exact .inl ⟨hnil, hbefore, (List.cons.inj hlast).1⟩
  | inr hlast =>
    obtain ⟨rest, last, rfl⟩ := hlast
    rw [List.concat_eq_append, ← List.cons_append, ← List.append_assoc] at h
    obtain ⟨hbefore, hlast⟩ := List.append_inj' h rfl
    exact .inr ⟨rest, by rw [(List.cons.inj hlast).1, List.concat_eq_append], hbefore⟩

/-- An entry is added, and the others keep what was before them. -/
theorem atEach_append_singleton : AtEach P (record ++ [x]) ↔ AtEach P record ∧ P record x := by
  constructor
  · intro h
    exact ⟨fun before y after heq => h before y (after ++ [x]) (by rw [heq, List.append_assoc, List.cons_append]),
      h record x [] rfl⟩
  · intro h before y after heq
    cases append_singleton_eq heq with
    | inl hlast =>
      obtain ⟨-, rfl, rfl⟩ := hlast
      exact h.2
    | inr hrest =>
      obtain ⟨rest, -, hrecord⟩ := hrest
      exact h.1 before y rest hrecord

/-- Entries that meet `P` after whatever follows the record are added. -/
theorem AtEach.append {added : List α} (h : AtEach P record) (hadded : ∀ x ∈ added, ∀ between, P (record ++ between) x) :
    AtEach P (record ++ added) := by
  induction added using List.reverseRecOn with
  | nil => rwa [List.append_nil]
  | append_singleton added x ih =>
    rw [← List.append_assoc]
    exact atEach_append_singleton.2
      ⟨ih fun y hy => hadded y (List.mem_append_left _ hy), hadded x (List.mem_append_right _ List.mem_cons_self) added⟩

theorem AtEach.mono (himp : ∀ before x, P before x → Q before x) (h : AtEach P record) : AtEach Q record :=
  fun before x after heq => himp before x (h before x after heq)

/-- What is counted only while there are fewer than `n` is at most `n`. -/
theorem AtEach.countP_le {p : α → Bool} {n : Nat}
    (h : AtEach (fun before x => p x = true → before.countP p < n) record) : record.countP p ≤ n := by
  induction record using List.reverseRecOn with
  | nil => simp
  | append_singleton record x ih =>
    obtain ⟨hbefore, hx⟩ := atEach_append_singleton.1 h
    rw [List.countP_append, List.countP_singleton]
    cases hp : p x with
    | true =>
      have hroom := hx hp
      simp only [if_true]
      omega
    | false =>
      have hrest := ih hbefore
      simpa using hrest

end History

end AgenticKb.Lib

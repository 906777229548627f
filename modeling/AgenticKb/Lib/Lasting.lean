import Mathlib.Control.Monad.Basic

namespace AgenticKb.Lib

/-! Computations that may fail, over a state that outlives their failures. -/

section Lasting

universe u

variable {σ α β : Type u}

/-- A computation that may fail; the state it leaves behind stays either way. -/
abbrev Lasting (σ α : Type u) := OptionT (StateM σ) α

/-- What needs no state: it succeeds or fails as the value says. -/
def Lasting.of (value : Option α) : Lasting σ α := OptionT.mk (pure value)

/-- What is found; or what is made, and put away for the next time. -/
def Lasting.once (find : Lasting σ (Option α)) (make : Lasting σ α) (put : α → Lasting σ PUnit) :
    Lasting σ α := do
  match ← find with
  | some a => pure a
  | none =>
    let a ← make
    put a
    pure a

section Bind

variable {m : Lasting σ α} {f : α → Lasting σ β} {s s' : σ}

theorem Lasting.bind_none (h : m.run.run s = (none, s')) : (m >>= f).run.run s = (none, s') := by
  rw [OptionT.run_bind, Option.elimM, StateT.run_bind, h]
  rfl

theorem Lasting.bind_some {a : α} (h : m.run.run s = (some a, s')) :
    (m >>= f).run.run s = (f a).run.run s' := by
  rw [OptionT.run_bind, Option.elimM, StateT.run_bind, h]
  rfl

variable {find : Lasting σ (Option α)} {make : Lasting σ α} {put : α → Lasting σ PUnit} {s'' s''' : σ} {a : α}

theorem Lasting.once_failed (hfind : find.run.run s = (none, s')) : (once find make put).run.run s = (none, s') :=
  bind_none hfind

theorem Lasting.once_found (hfind : find.run.run s = (some (some a), s')) :
    (once find make put).run.run s = (some a, s') := by
  rw [once, bind_some hfind]
  rfl

theorem Lasting.once_unmade (hfind : find.run.run s = (some none, s')) (hmake : make.run.run s' = (none, s'')) :
    (once find make put).run.run s = (none, s'') := by
  rw [once, bind_some hfind]
  exact bind_none hmake

theorem Lasting.once_made {stored : Option PUnit} (hfind : find.run.run s = (some none, s'))
    (hmake : make.run.run s' = (some a, s'')) (hput : (put a).run.run s'' = (stored, s''')) :
    (once find make put).run.run s = (stored.map fun _ => a, s''') := by
  rw [once, bind_some hfind]
  dsimp only
  rw [bind_some hmake]
  cases stored with
  | none => exact bind_none hput
  | some _ =>
    rw [bind_some hput]
    rfl

end Bind

/-- From every state the computation goes to a related one. -/
def Goes (R : σ → σ → Prop) (m : StateM σ α) : Prop := ∀ s, R s (m.run s).2

namespace Goes

variable {R : σ → σ → Prop} (hrefl : ∀ s, R s s) (htrans : ∀ s t u, R s t → R t u → R s u)

include hrefl in
theorem pure (a : α) : Goes R (Pure.pure a) := hrefl

include hrefl in
theorem of (value : Option α) : Goes R (@Lasting.of σ α value).run := hrefl

include htrans in
theorem bind {m : StateM σ α} {f : α → StateM σ β} (hm : Goes R m) (hf : ∀ a, Goes R (f a)) : Goes R (m >>= f) :=
  fun s => htrans s (m.run s).2 _ (hm s) (hf (m.run s).1 (m.run s).2)

include hrefl htrans in
/-- A failed first part ends the whole where it stands. -/
theorem run_bind {m : Lasting σ α} {f : α → Lasting σ β} (hm : Goes R m.run) (hf : ∀ a, Goes R (f a).run) :
    Goes R (m >>= f).run := by
  rw [OptionT.run_bind]
  apply Goes.bind htrans hm
  intro result
  cases result with
  | none => exact hrefl
  | some a => exact hf a

include hrefl htrans in
theorem foldlM {ι : Type*} {f : β → ι → StateM σ β} (hf : ∀ b i, Goes R (f b i)) (is : List ι) (b : β) :
    Goes R (is.foldlM f b) := by
  induction is generalizing b with
  | nil => exact hrefl
  | cons i is ih =>
    rw [List.foldlM_cons]
    exact Goes.bind htrans (hf b i) ih

include hrefl htrans in
theorem run_foldlM {ι : Type*} {f : β → ι → Lasting σ β} (hf : ∀ b i, Goes R (f b i).run) (is : List ι) (b : β) :
    Goes R (is.foldlM f b).run := by
  induction is generalizing b with
  | nil => exact hrefl
  | cons i is ih =>
    rw [List.foldlM_cons]
    exact Goes.run_bind hrefl htrans (hf b i) ih

end Goes

/-- From every good state the computation has this result, and leaves a good state. -/
def Agrees (Good : σ → Prop) (m : StateM σ α) (a : α) : Prop :=
  ∀ s, Good s → (m.run s).1 = a ∧ Good (m.run s).2

namespace Agrees

variable {Good : σ → Prop}

theorem pure (a : α) : Agrees Good (Pure.pure a) a := fun _ h => ⟨rfl, h⟩

theorem of (value : Option α) : Agrees Good (@Lasting.of σ α value).run value := fun _ h => ⟨rfl, h⟩

theorem bind {m : StateM σ α} {a : α} {f : α → StateM σ β} {b : β} (hm : Agrees Good m a)
    (hf : Agrees Good (f a) b) : Agrees Good (m >>= f) b := by
  intro s hs
  obtain ⟨hresult, hgood⟩ := hm s hs
  have hrest := hf (m.run s).2 hgood
  rw [← hresult] at hrest
  exact hrest

theorem run_bind {m : Lasting σ α} {o : Option α} {f : α → Lasting σ β} {g : α → Option β}
    (hm : Agrees Good m.run o) (hf : ∀ a, Agrees Good (f a).run (g a)) : Agrees Good (m >>= f).run (o >>= g) := by
  rw [OptionT.run_bind]
  apply Agrees.bind hm
  cases o with
  | none => exact Agrees.pure none
  | some a => exact hf a

theorem foldlM {ι : Type*} {f : β → ι → StateM σ β} {g : β → ι → β} (hf : ∀ b i, Agrees Good (f b i) (g b i))
    (is : List ι) (b : β) : Agrees Good (is.foldlM f b) (is.foldl g b) := by
  induction is generalizing b with
  | nil => exact Agrees.pure b
  | cons i is ih =>
    rw [List.foldlM_cons, List.foldl_cons]
    exact Agrees.bind (hf b i) (ih (g b i))

theorem run_foldlM {ι : Type*} {f : β → ι → Lasting σ β} {g : β → ι → Option β}
    (hf : ∀ b i, Agrees Good (f b i).run (g b i)) (is : List ι) (b : β) :
    Agrees Good (is.foldlM f b).run (is.foldlM g b) := by
  induction is generalizing b with
  | nil => exact Agrees.of (some b)
  | cons i is ih =>
    rw [List.foldlM_cons, List.foldlM_cons]
    exact Agrees.run_bind (hf b i) ih

end Agrees

end Lasting

end AgenticKb.Lib

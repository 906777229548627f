import Mathlib.Data.List.Basic

namespace AgenticKb.Lib

/-! A table of answers kept beside the computation that needs them: a question is asked only when its
answer is not there. -/

/-- How a storage takes a statement: it serves it, it turns it down and the caller goes on without, or it
raises into the caller. -/
inductive Taken | served | refused | raised
deriving DecidableEq, Repr

/-- The rows, and as history variables the keys of what was done. -/
structure Memo (κ ν : Type*) where
  rows : List (κ × ν) := []
  asked : List κ := []
  /-- Asked, and no answer came. -/
  unanswered : List κ := []
  /-- Answered, and the answer was not stored. -/
  unstored : List κ := []
  /-- Looked up, and the storage refused to say. -/
  unread : List κ := []

namespace Memo

variable {κ ν : Type*} [DecidableEq κ]

def get? (m : Memo κ ν) (k : κ) : Option ν := (m.rows.find? fun row => row.1 == k).map (·.2)

def Stored (m : Memo κ ν) (k : κ) : Prop := (m.get? k).isSome

instance (m : Memo κ ν) (k : κ) : Decidable (m.Stored k) := inferInstanceAs (Decidable (_ = true))

/-- The row of a key. A refused read is a miss. -/
def read (m : Memo κ ν) (taken : Taken) (k : κ) : Option (Option ν) × Memo κ ν :=
  match taken with
  | .served => (some (m.get? k), m)
  | .refused => (some none, { m with unread := m.unread ++ [k] })
  | .raised => (none, m)

def ask (m : Memo κ ν) (k : κ) (answer : Option ν) : Memo κ ν :=
  { m with
    asked := m.asked ++ [k]
    unanswered := if answer.isSome then m.unanswered else m.unanswered ++ [k] }

/-- Store an answer; the row of a key that has one is left alone. -/
def store (m : Memo κ ν) (taken : Taken) (k : κ) (v : ν) : Option Unit × Memo κ ν :=
  match taken with
  | .served => (some (), if m.Stored k then m else { m with rows := m.rows ++ [(k, v)] })
  | .refused => (some (), { m with unstored := m.unstored ++ [k] })
  | .raised => (none, { m with unstored := m.unstored ++ [k] })

/-- Read the row of a key; without one ask, and store the answer. -/
def request (m : Memo κ ν) (reads stores : Taken) (answer : Option ν) (k : κ) : Option ν × Memo κ ν :=
  match m.read reads k with
  | (none, m) => (none, m)
  | (some (some v), m) => (some v, m)
  | (some none, m) =>
    match answer with
    | none => (none, m.ask k none)
    | some v => (((m.ask k (some v)).store stores k v).1.map fun _ => v, ((m.ask k (some v)).store stores k v).2)

/-- A key is asked for once, and once more for each time an answer of it failed to come, to be stored or to
be read back. -/
structure Thrifty (m : Memo κ ν) : Prop where
  lost : ∀ k, ¬ m.Stored k → m.asked.count k ≤ m.unanswered.count k + m.unstored.count k
  once : ∀ k, m.asked.count k ≤ m.unanswered.count k + m.unstored.count k + m.unread.count k + 1

/-- What is stored stays as it is, and from then on a key is asked for only where its row is not read. -/
structure Grows (m m' : Memo κ ν) : Prop where
  kept : ∀ k v, m.get? k = some v → m'.get? k = some v
  unasked : ∀ k, m.Stored k → m'.asked.count k + m.unread.count k = m.asked.count k + m'.unread.count k

/-- Nothing that is stored is asked for again. -/
def Rests (m m' : Memo κ ν) : Prop := ∀ k, m.Stored k → m'.asked.count k = m.asked.count k

/-- Every row shows the answer to its key. -/
def Holds {ω : Type*} (m : Memo κ ν) (view : ν → ω) (answers : κ → Option ω) : Prop :=
  ∀ k v, m.get? k = some v → answers k = some (view v)

variable {m m' m'' : Memo κ ν} {k k' : κ} {v : ν} {taken reads stores : Taken} {answer : Option ν}

theorem thrifty_empty : Thrifty ({} : Memo κ ν) where
  lost _ _ := Nat.zero_le _
  once _ := Nat.zero_le _

theorem holds_empty {ω : Type*} (view : ν → ω) (answers : κ → Option ω) : Holds ({} : Memo κ ν) view answers := by
  intro k v h
  simp [get?] at h

/-- A key that is not stored was lost each time it was asked for. -/
theorem Thrifty.mem (h : m.Thrifty) (hk : ¬ m.Stored k) (hasked : k ∈ m.asked) :
    k ∈ m.unanswered ∨ k ∈ m.unstored := by
  have hcount := h.lost k hk
  have hpos := List.count_pos_iff.2 hasked
  by_cases hlost : k ∈ m.unanswered
  · exact .inl hlost
  · rw [List.count_eq_zero_of_not_mem hlost] at hcount
    exact .inr (List.count_pos_iff.1 (by omega))

theorem Grows.refl (m : Memo κ ν) : Grows m m where
  kept _ _ h := h
  unasked _ _ := rfl

theorem Grows.stored (h : Grows m m') (hk : m.Stored k) : m'.Stored k := by
  obtain ⟨v, hv⟩ := Option.isSome_iff_exists.1 hk
  exact Option.isSome_iff_exists.2 ⟨v, h.kept k v hv⟩

theorem Grows.trans (h : Grows m m') (h' : Grows m' m'') : Grows m m'' where
  kept k v hv := h'.kept k v (h.kept k v hv)
  unasked k hk := by
    have hfirst := h.unasked k hk
    have hsecond := h'.unasked k (h.stored hk)
    omega

/-- A row that is added is found under its own key, and changes no other. -/
theorem get?_add (hk : ¬ m.Stored k) (hrows : m'.rows = m.rows ++ [(k, v)]) :
    m'.get? k' = if k' = k then some v else m.get? k' := by
  have hnone : m.rows.find? (fun row => row.1 == k) = none := by
    simpa only [Stored, get?, Option.isSome_map, Option.not_isSome_iff_eq_none] using hk
  by_cases hkk : k' = k
  · subst hkk
    simp [get?, hrows, List.find?_append, hnone]
  · have hne : (k == k') = false := by simpa using fun h : k = k' => hkk h.symm
    simp [get?, hrows, List.find?_append, hkk, hne]

/-- The key is asked for: its read was refused, or its row is not there. -/
def Missed (m : Memo κ ν) (k : κ) (unread : List κ) : Prop := unread = [k] ∨ unread = [] ∧ ¬ m.Stored k

/-- What a request comes to: what it answers, and the table it leaves. -/
inductive Requested (m : Memo κ ν) (k : κ) (answer : Option ν) : Option ν → Memo κ ν → Prop
  | failed : Requested m k answer none m
  | read (v : ν) (hv : m.get? k = some v) : Requested m k answer (some v) m
  | unanswered (unread : List κ) (hmiss : m.Missed k unread) (hanswer : answer = none) :
      Requested m k answer none
        { m with asked := m.asked ++ [k], unread := m.unread ++ unread, unanswered := m.unanswered ++ [k] }
  | unstored (unread : List κ) (hmiss : m.Missed k unread) (result : Option ν) :
      Requested m k answer result
        { m with asked := m.asked ++ [k], unread := m.unread ++ unread, unstored := m.unstored ++ [k] }
  | already (hrow : m.Stored k) (v : ν) (hanswer : answer = some v) :
      Requested m k answer (some v) { m with asked := m.asked ++ [k], unread := m.unread ++ [k] }
  | stored (unread : List κ) (hmiss : m.Missed k unread) (hrow : ¬ m.Stored k) (v : ν) (hanswer : answer = some v) :
      Requested m k answer (some v)
        { m with asked := m.asked ++ [k], unread := m.unread ++ unread, rows := m.rows ++ [(k, v)] }

/-- A request that missed asks, and stores what is answered. -/
theorem requested_of_missed {unread : List κ} (hmiss : m.Missed k unread) (hanswer : answer = some v)
    (stores : Taken) :
    Requested m k answer
      ((({ m with unread := m.unread ++ unread }.ask k (some v)).store stores k v).1.map fun _ => v)
      (({ m with unread := m.unread ++ unread }.ask k (some v)).store stores k v).2 := by
  cases stores with
  | served =>
    by_cases hrow : m.Stored k
    · obtain rfl : unread = [k] := hmiss.resolve_right fun h => h.2 hrow
      have hsame : ({ m with unread := m.unread ++ [k] }.ask k (some v)).Stored k := hrow
      rw [store, if_pos hsame]
      exact .already hrow v hanswer
    · have hsame : ¬ ({ m with unread := m.unread ++ unread }.ask k (some v)).Stored k := hrow
      rw [store, if_neg hsame]
      exact .stored unread hmiss hrow v hanswer
  | refused => exact .unstored unread hmiss (some v)
  | raised => exact .unstored unread hmiss none

theorem request_spec (m : Memo κ ν) (reads stores : Taken) (answer : Option ν) (k : κ) :
    Requested m k answer (m.request reads stores answer k).1 (m.request reads stores answer k).2 := by
  cases reads with
  | raised => exact .failed
  | served =>
    cases hv : m.get? k with
    | some v => simpa only [request, read, hv] using Requested.read v hv
    | none =>
      have hmiss : m.Missed k [] := .inr ⟨rfl, by simp [Stored, hv]⟩
      cases answer with
      | none => simpa [request, read, hv, ask] using Requested.unanswered [] hmiss rfl
      | some v => simpa [request, read, hv] using requested_of_missed hmiss rfl stores
  | refused =>
    cases answer with
    | none => exact .unanswered [k] (.inl rfl) rfl
    | some v => exact requested_of_missed (.inl rfl) rfl stores

/-- A key that is stored was asked for because its read was refused. -/
theorem Missed.count_eq {unread : List κ} (hmiss : m.Missed k unread) (hk' : m.Stored k') :
    unread.count k' = [k].count k' := by
  cases hmiss with
  | inl hrefused => rw [hrefused]
  | inr hnone =>
    rw [hnone.1, List.count_nil, List.count_eq_zero_of_not_mem]
    intro hmem
    rw [List.mem_singleton.1 hmem] at hk'
    exact hnone.2 hk'

theorem count_singleton_of_ne (h : k' ≠ k) : [k].count k' = 0 :=
  List.count_eq_zero_of_not_mem (by simpa using h)

/-- One request keeps the balance of the keys. -/
theorem Requested.thrifty {result : Option ν} (h : Requested m k answer result m') (hm : m.Thrifty) : m'.Thrifty := by
  cases h with
  | failed => exact hm
  | read => exact hm
  | unanswered unread =>
    constructor
    case lost =>
      intro k' hk'
      have hlost := hm.lost k' hk'
      simp only [List.count_append]
      omega
    case once =>
      intro k'
      have honce := hm.once k'
      simp only [List.count_append]
      omega
  | unstored unread =>
    constructor
    case lost =>
      intro k' hk'
      have hlost := hm.lost k' hk'
      simp only [List.count_append]
      omega
    case once =>
      intro k'
      have honce := hm.once k'
      simp only [List.count_append]
      omega
  | already hrow =>
    constructor
    case lost =>
      intro k' hk'
      have hlost := hm.lost k' hk'
      have hother := count_singleton_of_ne fun heq : k' = k => hk' (heq ▸ hrow)
      simp only [List.count_append]
      omega
    case once =>
      intro k'
      have honce := hm.once k'
      simp only [List.count_append]
      omega
  | stored unread hmiss hrow v =>
    constructor
    case lost =>
      intro k' hk'
      rw [Stored, get?_add hrow rfl] at hk'
      by_cases heq : k' = k
      · rw [if_pos heq] at hk'
        exact absurd rfl hk'
      · rw [if_neg heq] at hk'
        have hlost := hm.lost k' hk'
        have hother := count_singleton_of_ne heq
        simp only [List.count_append]
        omega
    case once =>
      intro k'
      by_cases heq : k' = k
      · have hlost := hm.lost k' (heq ▸ hrow)
        have hone : [k].count k' = 1 := by rw [heq, List.count_singleton_self]
        simp only [List.count_append]
        omega
      · have honce := hm.once k'
        have hother := count_singleton_of_ne heq
        simp only [List.count_append]
        omega

/-- One request only adds to the table. -/
theorem Requested.grows {result : Option ν} (h : Requested m k answer result m') : Grows m m' := by
  cases h with
  | failed => exact .refl m
  | read => exact .refl m
  | unanswered unread hmiss =>
    constructor
    case kept => exact fun _ _ hv => hv
    case unasked =>
      intro k' hk'
      simp only [List.count_append, hmiss.count_eq hk']
      omega
  | unstored unread hmiss =>
    constructor
    case kept => exact fun _ _ hv => hv
    case unasked =>
      intro k' hk'
      simp only [List.count_append, hmiss.count_eq hk']
      omega
  | already hrow =>
    constructor
    case kept => exact fun _ _ hv => hv
    case unasked =>
      intro k' _
      simp only [List.count_append]
      omega
  | stored unread hmiss hrow v =>
    have hne (k' : κ) (hk' : m.Stored k') : k' ≠ k := fun heq => hrow (heq ▸ hk')
    constructor
    case kept =>
      intro k' w hw
      rw [get?_add hrow rfl, if_neg (hne k' (by rw [Stored, hw]; rfl))]
      exact hw
    case unasked =>
      intro k' hk'
      simp only [List.count_append, hmiss.count_eq hk', count_singleton_of_ne (hne k' hk')]
      omega

theorem request_grows (m : Memo κ ν) (reads stores : Taken) (answer : Option ν) (k : κ) :
    Grows m (m.request reads stores answer k).2 := (request_spec m reads stores answer k).grows

/-- Where no read is refused, none is recorded. -/
theorem request_unread (hreads : reads ≠ .refused) (m : Memo κ ν) (stores : Taken) (answer : Option ν) (k : κ) :
    (m.request reads stores answer k).2.unread = m.unread := by
  cases reads with
  | refused => exact absurd rfl hreads
  | raised => rfl
  | served =>
    cases hv : m.get? k with
    | some v => simp only [request, read, hv]
    | none =>
      cases answer with
      | none => simp only [request, read, hv, ask]
      | some v =>
        simp only [request, read, hv]
        cases stores with
        | served => simp only [store]; split <;> rfl
        | refused => rfl
        | raised => rfl

section Answers

variable {ω : Type*} {view : ν → ω} {answers : κ → Option ω}

theorem Requested.holds {result : Option ν} (h : Requested m k answer result m') (hanswer : answer.map view = answers k)
    (hm : m.Holds view answers) : m'.Holds view answers := by
  cases h with
  | failed => exact hm
  | read => exact hm
  | unanswered => exact hm
  | unstored => exact hm
  | already => exact hm
  | stored unread hmiss hrow v hv =>
    intro k' w hw
    rw [get?_add hrow rfl] at hw
    by_cases heq : k' = k
    · rw [if_pos heq] at hw
      rw [heq, ← hanswer, hv, Option.some.inj hw]
      rfl
    · rw [if_neg heq] at hw
      exact hm k' w hw

/-- A storage that does not raise hands the answer on. -/
theorem store_fst (hstores : stores ≠ .raised) (m : Memo κ ν) (k : κ) (v : ν) : (m.store stores k v).1 = some () := by
  cases stores with
  | served => rfl
  | refused => rfl
  | raised => exact absurd rfl hstores

/-- With rows that show the answers, a request that nothing raises into comes to the answer. -/
theorem request_fst (hm : m.Holds view answers) (hanswer : answer.map view = answers k) (hreads : reads ≠ .raised)
    (hstores : stores ≠ .raised) : (m.request reads stores answer k).1.map view = answers k := by
  have hmissed (m : Memo κ ν) (v : ν) : ((m.store stores k v).1.map fun _ => v) = some v := by
    rw [store_fst hstores]
    rfl
  cases reads with
  | raised => exact absurd rfl hreads
  | served =>
    cases hv : m.get? k with
    | some v =>
      rw [hm k v hv]
      simp only [request, read, hv, Option.map_some]
    | none =>
      rw [← hanswer]
      cases answer with
      | none => simp only [request, read, hv]
      | some v => simp only [request, read, hv, hmissed]
  | refused =>
    rw [← hanswer]
    cases answer with
    | none => rfl
    | some v => exact congrArg (Option.map view) (hmissed _ v)

end Answers

/-- What a table goes through while it is used; `served` is that no read is refused meanwhile. -/
structure Used (served : Prop) (m m' : Memo κ ν) : Prop extends Grows m m' where
  thrifty : m.Thrifty → m'.Thrifty
  unread : served → m'.unread = m.unread

theorem Used.refl (served : Prop) (m : Memo κ ν) : Used served m m :=
  { Grows.refl m with thrifty := id, unread := fun _ => rfl }

theorem Used.trans {served : Prop} (h : Used served m m') (h' : Used served m' m'') : Used served m m'' :=
  { h.toGrows.trans h'.toGrows with
    thrifty := fun hm => h'.thrifty (h.thrifty hm)
    unread := fun hserved => (h'.unread hserved).trans (h.unread hserved) }

theorem request_used {served : Prop} (hreads : served → reads ≠ .refused) (m : Memo κ ν) (stores : Taken)
    (answer : Option ν) (k : κ) : Used served m (m.request reads stores answer k).2 :=
  { request_grows m reads stores answer k with
    thrifty := (request_spec m reads stores answer k).thrifty
    unread := fun hserved => request_unread (hreads hserved) m stores answer k }

/-- Where every read is served, a stored key is not asked for. -/
theorem Used.rests {served : Prop} (h : Used served m m') (hserved : served) : Rests m m' := by
  intro k hk
  have hcount := h.unasked k hk
  rw [h.unread hserved] at hcount
  omega

end Memo

end AgenticKb.Lib

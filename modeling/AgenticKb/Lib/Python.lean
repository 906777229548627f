import Mathlib.Data.Char
import Mathlib.Data.List.Infix
import Mathlib.Data.List.Lex
import Mathlib.Data.List.Sort

namespace AgenticKb.Lib

/-! Python's built-in collections and text functions, over lists. -/

/-- A `dict` in insertion order. -/
abbrev Dict (κ α : Type*) := List (κ × α)

namespace Dict

variable {κ α : Type*} [DecidableEq κ]

def get? (d : Dict κ α) (k : κ) : Option α := d.lookup k

/-- `d[k] = v`: a key that is already there keeps its place. -/
def set (d : Dict κ α) (k : κ) (v : α) : Dict κ α :=
  if d.any (·.1 == k) then d.map fun entry => if entry.1 = k then (k, v) else entry
  else d ++ [(k, v)]

/-- `d[k] = v`, if there is a `v`. -/
def set_some (d : Dict κ α) (k : κ) : Option α → Dict κ α
  | some v => d.set k v
  | none => d

/-- `d.setdefault(k, v)`. -/
def setdefault (d : Dict κ α) (k : κ) (v : α) : Dict κ α :=
  if d.any (·.1 == k) then d else d ++ [(k, v)]

/-- `del d[k]`. -/
def del (d : Dict κ α) (k : κ) : Dict κ α := d.filter fun entry => entry.1 != k

/-- `d.setdefault(k, []).append(v)`. -/
def append_to (d : Dict κ (List α)) (k : κ) (v : α) : Dict κ (List α) :=
  d.set k ((d.get? k).getD [] ++ [v])

section Lemmas

variable {d : Dict κ α} {k k' : κ} {v : α}

theorem mem_of_get? (h : d.get? k = some v) : (k, v) ∈ d := by
  induction d with
  | nil => simp [get?] at h
  | cons entry d ih =>
    obtain ⟨key, value⟩ := entry
    simp only [get?, List.lookup_cons] at h
    split at h
    · rename_i heq
      simp only [beq_iff_eq] at heq
      simp_all
    · exact List.mem_cons_of_mem _ (ih h)

theorem get?_isSome_of_mem (h : (k, v) ∈ d) : ∃ value, d.get? k = some value := by
  induction d with
  | nil => simp at h
  | cons entry d ih =>
    obtain ⟨key, value⟩ := entry
    simp only [get?, List.lookup_cons]
    split
    · exact ⟨value, rfl⟩
    · rename_i hne
      rcases List.mem_cons.1 h with heq | hmem
      · simp only [Prod.mk.injEq] at heq
        simp [heq.1] at hne
      · exact ih hmem

private theorem get?_map_replace (h : d.any (·.1 == k) = true) :
    get? (d.map fun entry => if entry.1 = k then (k, v) else entry) k = some v := by
  induction d with
  | nil => simp at h
  | cons entry d ih =>
    obtain ⟨key, value⟩ := entry
    by_cases hk : key = k
    · simp [get?, hk]
    · have hk' : (k == key) = false := by simpa using Ne.symm hk
      simp only [List.any_cons, beq_iff_eq, hk, Bool.or_eq_true, false_or] at h
      simpa [get?, hk, List.lookup_cons, hk'] using ih h

private theorem get?_map_other (hne : k' ≠ k) :
    get? (d.map fun entry => if entry.1 = k then (k, v) else entry) k' = d.get? k' := by
  induction d with
  | nil => rfl
  | cons entry d ih =>
    obtain ⟨key, value⟩ := entry
    simp only [get?] at ih
    by_cases hk : key = k
    · have hne' : (k' == k) = false := by simpa using hne
      simp [get?, hk, List.lookup_cons, hne', ih]
    · simp [get?, hk, List.lookup_cons, ih]

@[simp] theorem get?_append {d' : Dict κ α} : get? (d ++ d') k = (d.get? k).or (d'.get? k) := by
  induction d with
  | nil => simp [get?]
  | cons entry d ih =>
    obtain ⟨key, value⟩ := entry
    simp only [get?] at ih
    simp only [get?, List.cons_append, List.lookup_cons]
    split
    · rfl
    · exact ih

theorem get?_singleton : get? [(k, v)] k' = if k' = k then some v else none := by
  simp only [get?, List.lookup_cons, List.lookup_nil]
  by_cases heq : k' = k
  · simp only [heq, beq_self_eq_true, if_true]
  · simp only [beq_eq_false_iff_ne.2 heq, if_neg heq]

private theorem get?_eq_none_of_not_any (h : d.any (·.1 == k) = false) : d.get? k = none := by
  cases hget : d.get? k with
  | none => rfl
  | some value =>
    have hmem := mem_of_get? hget
    simp only [List.any_eq_false, beq_iff_eq] at h
    exact absurd rfl (h _ hmem)

theorem get?_set : (d.set k v).get? k' = if k' = k then some v else d.get? k' := by
  unfold set
  split
  · rename_i hany
    split
    · rename_i heq
      rw [heq, get?_map_replace hany]
    · rename_i hne
      exact get?_map_other hne
  · rename_i hany
    simp only [Bool.not_eq_true] at hany
    rw [get?_append]
    split
    · rename_i heq
      rw [heq, get?_eq_none_of_not_any hany]
      simp [get?]
    · rename_i hne
      have hne' : (k' == k) = false := by simpa using hne
      simp [get?, List.lookup_cons, hne']

/-- The entries of an updated dictionary are old ones or the new one. -/
theorem mem_set {entry : κ × α} (h : entry ∈ d.set k v) : entry ∈ d ∨ entry = (k, v) := by
  unfold set at h
  split at h
  · obtain ⟨old, hold, heq⟩ := List.mem_map.1 h
    split at heq
    · exact .inr heq.symm
    · exact .inl (heq ▸ hold)
  · simpa using h

theorem nodup_set (h : (d.map (·.1)).Nodup) : ((d.set k v).map (·.1)).Nodup := by
  unfold set
  split
  · have hkeys : (d.map fun entry => if entry.1 = k then (k, v) else entry).map (·.1) = d.map (·.1) := by
      rw [List.map_map]
      refine List.map_congr_left fun entry _ => ?_
      by_cases hk : entry.1 = k
      · simp [hk]
      · simp [hk]
    rwa [hkeys]
  · rename_i hany
    rw [List.map_append, List.nodup_append]
    refine ⟨h, List.nodup_singleton _, ?_⟩
    intro key hkey key' hkey' heq
    obtain ⟨entry, hentry, rfl⟩ := List.mem_map.1 hkey
    simp only [List.map_cons, List.map_nil, List.mem_singleton] at hkey'
    exact hany (List.any_eq_true.2 ⟨entry, hentry, by simpa using heq.trans hkey'⟩)

theorem mem_foldl_set {β : Type*} (key : β → κ) (value : β → α) {xs : List β} {entry : κ × α}
    (h : entry ∈ xs.foldl (fun d x => set d (key x) (value x)) d) :
    entry ∈ d ∨ ∃ x ∈ xs, entry = (key x, value x) := by
  induction xs generalizing d with
  | nil => exact .inl h
  | cons x xs ih =>
    rcases ih h with hset | ⟨y, hy, heq⟩
    · rcases mem_set hset with hold | heq
      · exact .inl hold
      · exact .inr ⟨x, List.mem_cons_self, heq⟩
    · exact .inr ⟨y, List.mem_cons_of_mem _ hy, heq⟩

theorem mem_keys_iff : k ∈ d.map (·.1) ↔ ∃ value, d.get? k = some value := by
  constructor
  · intro h
    obtain ⟨entry, hentry, rfl⟩ := List.mem_map.1 h
    exact get?_isSome_of_mem hentry
  · rintro ⟨value, h⟩
    exact List.mem_map_of_mem (mem_of_get? h)

/-- `d.update` adds its keys and keeps those there were. -/
theorem mem_keys_foldl_set {β : Type*} (key : β → κ) (value : β → α) {xs : List β} :
    k ∈ (xs.foldl (fun d x => set d (key x) (value x)) d).map (·.1) ↔ k ∈ d.map (·.1) ∨ k ∈ xs.map key := by
  induction xs generalizing d with
  | nil => simp
  | cons x xs ih =>
    rw [List.foldl_cons, ih, mem_keys_iff, get?_set, List.map_cons, List.mem_cons, mem_keys_iff]
    by_cases hk : k = key x
    · simp [hk]
    · simp [hk]

theorem mem_setdefault {entry : κ × α} (h : entry ∈ d.setdefault k v) : entry ∈ d ∨ entry = (k, v) := by
  unfold setdefault at h
  split at h
  · exact .inl h
  · simpa using h

theorem nodup_setdefault (h : (d.map (·.1)).Nodup) : ((d.setdefault k v).map (·.1)).Nodup := by
  unfold setdefault
  split
  · exact h
  · rename_i hnew
    rw [List.map_append, List.nodup_append]
    refine ⟨h, List.nodup_singleton k, ?_⟩
    intro key hkey other hother heq
    rw [List.map_singleton, List.mem_singleton] at hother
    apply hnew
    obtain ⟨entry, hentry, hentry_key⟩ := List.mem_map.mp hkey
    exact List.any_eq_true.mpr ⟨entry, hentry, by simp [hentry_key, heq, hother]⟩

theorem get?_setdefault :
    (d.setdefault k v).get? k' = if k' = k then some ((d.get? k).getD v) else d.get? k' := by
  unfold setdefault
  split
  · rename_i hany
    split
    · rename_i heq
      obtain ⟨entry, hmem, hkey⟩ := List.any_eq_true.1 hany
      simp only [beq_iff_eq] at hkey
      obtain ⟨value, hvalue⟩ := get?_isSome_of_mem (k := k) (v := entry.2) (d := d) (hkey ▸ hmem)
      rw [heq, hvalue, Option.getD_some]
    · rfl
  · rename_i hany
    simp only [Bool.not_eq_true] at hany
    have hnone := get?_eq_none_of_not_any hany
    rw [get?_append]
    split
    · rename_i heq
      rw [heq, hnone]
      simp [get?]
    · rename_i hne
      have hne' : (k' == k) = false := by simpa using hne
      simp [get?, List.lookup_cons, hne']

/-- The last element of a key is what `d.update` leaves under it. -/
theorem get?_foldl_set {β : Type*} (key : β → κ) (value : β → α) {xs : List β} :
    (xs.foldl (fun d x => set d (key x) (value x)) d).get? k =
      ((xs.reverse.find? fun x => key x == k).map value).or (d.get? k) := by
  induction xs using List.reverseRecOn with
  | nil => rfl
  | append_singleton xs x ih =>
    rw [List.foldl_append, List.foldl_cons, List.foldl_nil, get?_set, List.reverse_append, List.reverse_singleton,
      List.singleton_append]
    by_cases hk : k = key x
    · rw [if_pos hk, List.find?_cons_of_pos (by simp [hk])]
      rfl
    · rw [if_neg hk, List.find?_cons_of_neg (by simpa using Ne.symm hk)]
      exact ih

/-- Where an element may leave the dictionary alone, the last element of a key that does not. -/
theorem get?_foldl_set_some {β : Type*} (key : β → κ) (value : β → Option α) (xs : List β) (d : Dict κ α) (k : κ) :
    (xs.foldl (fun d x => set_some d (key x) (value x)) d).get? k =
      ((xs.filter fun x => key x == k).filterMap value).getLast?.or (d.get? k) := by
  induction xs using List.reverseRecOn with
  | nil => rfl
  | append_singleton xs x ih =>
    rw [List.foldl_append, List.foldl_cons, List.foldl_nil, List.filter_append, List.filterMap_append]
    cases hvalue : value x with
    | none =>
      rw [set_some, ih]
      by_cases hk : key x = k
      · simp [hk, hvalue]
      · simp [hk]
    | some v =>
      rw [set_some, get?_set]
      by_cases hk : key x = k
      · simp [hk, hvalue]
      · rw [if_neg (Ne.symm hk), ih]
        simp [hk]

/-- A comprehension over distinct keys has one entry for every element. -/
theorem foldl_set_eq_map {β : Type*} (key : β → κ) (value : β → α) {xs : List β} (hnodup : (xs.map key).Nodup) :
    xs.foldl (fun d x => set d (key x) (value x)) [] = xs.map fun x => (key x, value x) := by
  induction xs using List.reverseRecOn with
  | nil => rfl
  | append_singleton xs x ih =>
    rw [List.map_append, List.nodup_append] at hnodup
    have hnew : (xs.map fun x => (key x, value x)).any (·.1 == key x) = false := by
      rw [List.any_eq_false]
      intro entry hentry heq
      obtain ⟨y, hy, rfl⟩ := List.mem_map.1 hentry
      exact hnodup.2.2 (key y) (List.mem_map_of_mem hy) (key x) (by simp) (beq_iff_eq.1 heq)
    rw [List.foldl_append, List.foldl_cons, List.foldl_nil, ih hnodup.1, set, hnew, List.map_append]
    rfl

/-- Where the keys of some elements are distinct, a key leads to its element alone. -/
theorem filter_key_eq {β : Type*} {key : β → κ} {xs : List β} (hnodup : (xs.map key).Nodup) {i : Nat} {x : β}
    (h : xs[i]? = some x) : (xs.filter fun y => key y == key x) = [x] := by
  induction xs generalizing i with
  | nil => simp at h
  | cons y ys ih =>
    rw [List.map_cons, List.nodup_cons] at hnodup
    cases i with
    | zero =>
      obtain rfl := Option.some.inj h
      rw [List.filter_cons_of_pos (by simp), List.filter_eq_nil_iff.2]
      intro z hz heq
      exact hnodup.1 (List.mem_map.2 ⟨z, hz, beq_iff_eq.1 heq⟩)
    | succ i =>
      have hrest : ys[i]? = some x := h
      have hne : ¬ (key y == key x) = true := by
        intro heq
        exact hnodup.1 (List.mem_map.2 ⟨x, List.mem_of_getElem? hrest, (beq_iff_eq.1 heq).symm⟩)
      rw [List.filter_cons_of_neg (p := fun y => key y == key x) hne, ih hnodup.2 hrest]

/-- Where the keys are distinct, every entry is found under its key. -/
theorem get?_of_mem (hnodup : (d.map (·.1)).Nodup) (h : (k, v) ∈ d) : d.get? k = some v := by
  obtain ⟨value, hvalue⟩ := get?_isSome_of_mem h
  have heq : (k, value) = (k, v) := List.inj_on_of_nodup_map hnodup (mem_of_get? hvalue) h rfl
  rw [hvalue, (Prod.mk.inj heq).2]

/-- There the last entry of a key is the only one. -/
theorem find?_reverse (hnodup : (d.map (·.1)).Nodup) :
    (d.reverse.find? fun entry => entry.1 == k).map (·.2) = d.get? k := by
  cases hfound : d.reverse.find? fun entry => entry.1 == k with
  | none =>
    cases hget : d.get? k with
    | none => rfl
    | some value =>
      have hnone := List.find?_eq_none.1 hfound (k, value) (List.mem_reverse.2 (mem_of_get? hget))
      simp at hnone
  | some entry =>
    have hmem := List.mem_reverse.1 (List.mem_of_find?_eq_some hfound)
    have hkey : entry.1 = k := by simpa using List.find?_some hfound
    rw [Option.map_some, get?_of_mem hnodup (k := k) (v := entry.2) (hkey ▸ hmem)]

theorem get?_filter {q : κ → Bool} :
    get? (d.filter fun entry => q entry.1) k = if q k then d.get? k else none := by
  induction d with
  | nil => simp [get?]
  | cons entry d ih =>
    obtain ⟨key, value⟩ := entry
    simp only [get?] at ih
    by_cases hk : k = key
    · subst hk
      by_cases hq : q k <;> simp [get?, hq, ih]
    · have hne : (k == key) = false := by simpa using hk
      by_cases hq : q key <;> simp [get?, List.lookup_cons, hq, hne, ih]

theorem get?_del : (d.del k).get? k' = if k' = k then none else d.get? k' := by
  rw [del, get?_filter (q := fun key => key != k)]
  by_cases hk : k' = k
  · simp [hk]
  · simp [hk]

theorem get?_map {β : Type*} {f : α → β} :
    get? (d.map fun entry => (entry.1, f entry.2)) k = (d.get? k).map f := by
  induction d with
  | nil => simp [get?]
  | cons entry d ih =>
    obtain ⟨key, value⟩ := entry
    simp only [get?] at ih
    simp only [get?, List.map_cons, List.lookup_cons]
    split <;> simp [ih]

theorem get?_append_to {d : Dict κ (List α)} {v : α} :
    (d.append_to k v).get? k' =
      if k' = k then some ((d.get? k).getD [] ++ [v]) else d.get? k' :=
  get?_set

end Lemmas

section Group

variable {d : Dict κ (List α)} (key : α → κ)

/-- Grouping keeps every element in the group of its key. -/
theorem mem_group_of_mem {xs : List α} {x : α} (hx : x ∈ xs) :
    ∃ group, (xs.foldl (fun (d : Dict κ (List α)) x => d.append_to (key x) x) d).get? (key x) = some group ∧
      x ∈ group := by
  induction xs using List.reverseRecOn with
  | nil => simp at hx
  | append_singleton xs y ih =>
    rw [List.foldl_append, List.foldl_cons, List.foldl_nil, get?_append_to]
    rcases List.mem_append.1 hx with hx | hx
    · obtain ⟨group, hgroup, hmem⟩ := ih hx
      split
      · rename_i heq
        refine ⟨_, rfl, ?_⟩
        rw [← heq, hgroup]
        exact List.mem_append_left _ hmem
      · exact ⟨group, hgroup, hmem⟩
    · rw [List.mem_singleton.1 hx, if_pos rfl]
      exact ⟨_, rfl, List.mem_append_right _ List.mem_cons_self⟩

/-- The groups hold elements of the list, under their own key, and none is empty. -/
theorem group_sound {xs : List α} {entry : κ × List α}
    (h : entry ∈ xs.foldl (fun (d : Dict κ (List α)) x => d.append_to (key x) x) []) :
    entry.2 ≠ [] ∧ ∀ x ∈ entry.2, x ∈ xs ∧ key x = entry.1 := by
  induction xs using List.reverseRecOn generalizing entry with
  | nil => simp at h
  | append_singleton xs y ih =>
    rw [List.foldl_append, List.foldl_cons, List.foldl_nil] at h
    rcases mem_set h with hold | rfl
    · obtain ⟨hne, hall⟩ := ih hold
      exact ⟨hne, fun x hx => ⟨List.mem_append_left _ (hall x hx).1, (hall x hx).2⟩⟩
    · refine ⟨by simp, fun x hx => ?_⟩
      rcases List.mem_append.1 hx with hx | hx
      · cases hget : (xs.foldl (fun (d : Dict κ (List α)) x => d.append_to (key x) x) []).get? (key y) with
        | none => simp [hget] at hx
        | some group =>
          rw [hget, Option.getD_some] at hx
          obtain ⟨hmem, hkey⟩ := (ih (mem_of_get? hget)).2 x hx
          exact ⟨List.mem_append_left _ hmem, hkey⟩
      · rw [List.mem_singleton.1 hx]
        exact ⟨List.mem_append_right _ List.mem_cons_self, rfl⟩

/-- The group of a key holds the elements that have it, in order. -/
theorem group_eq_filter {xs : List α} {entry : κ × List α}
    (h : entry ∈ xs.foldl (fun (d : Dict κ (List α)) x => d.append_to (key x) x) []) :
    entry.2 = xs.filter fun x => key x == entry.1 := by
  induction xs using List.reverseRecOn generalizing entry with
  | nil => simp at h
  | append_singleton xs y ih =>
    rw [List.foldl_append, List.foldl_cons, List.foldl_nil] at h
    rw [List.filter_append]
    have hmem : ∀ x ∈ xs, ∃ group,
        (xs.foldl (fun (d : Dict κ (List α)) x => d.append_to (key x) x) []).get? (key x) = some group :=
      fun x hx => (mem_group_of_mem key hx).imp fun _ h => h.1
    generalize xs.foldl (fun (d : Dict κ (List α)) x => d.append_to (key x) x) [] = d at h ih hmem
    unfold append_to set at h
    split at h
    · obtain ⟨old, hold, heq⟩ := List.mem_map.1 h
      split at heq
      · rename_i hkey
        obtain ⟨value, hvalue⟩ := get?_isSome_of_mem (d := d) (k := key y) (v := old.2) (hkey ▸ hold)
        have hgroup := ih (mem_of_get? hvalue)
        rw [← heq, hvalue, Option.getD_some]
        simpa using hgroup
      · rename_i hkey
        rw [← heq, ih hold]
        simp [Ne.symm hkey]
    · rename_i hnone
      simp only [Bool.not_eq_true] at hnone
      cases List.mem_append.1 h with
      | inl hold =>
        have hkey : entry.1 ≠ key y := by
          intro heq
          have hfound := List.any_eq_false.1 hnone entry hold
          simp [heq] at hfound
        rw [ih hold]
        simp [Ne.symm hkey]
      | inr hnew =>
        rw [List.mem_singleton.1 hnew]
        have hfresh : xs.filter (fun x => key x == key y) = [] := by
          rw [List.filter_eq_nil_iff]
          intro x hx heq
          obtain ⟨group, hgroup⟩ := hmem x hx
          have hfound := List.any_eq_false.1 hnone _ (mem_of_get? hgroup)
          simp only [beq_iff_eq] at heq hfound
          exact hfound heq
        rw [get?_eq_none_of_not_any hnone, hfresh]
        simp

theorem get?_group (xs : List α) (k : κ) :
    (xs.foldl (fun (d : Dict κ (List α)) x => d.append_to (key x) x) []).get? k =
      if xs.filter (fun x => key x == k) = [] then none else some (xs.filter fun x => key x == k) := by
  induction xs using List.reverseRecOn with
  | nil => simp [get?]
  | append_singleton xs y ih =>
    rw [List.foldl_append, List.foldl_cons, List.foldl_nil, get?_append_to, List.filter_append]
    by_cases hk : k = key y
    · subst hk
      rw [if_pos rfl, ih]
      split
      · rename_i hnil
        simp [hnil]
      · simp
    · rw [if_neg hk, ih]
      simp [Ne.symm hk]

/-- No key has two groups. -/
theorem nodup_group (xs : List α) :
    ((xs.foldl (fun (d : Dict κ (List α)) x => d.append_to (key x) x) []).map (·.1)).Nodup :=
  List.foldlRecOn xs _ (motive := fun d : Dict κ (List α) => (d.map (·.1)).Nodup) (by simp)
    fun _ hd _ _ => nodup_set hd

end Group

end Dict

/-- `sorted` with a key order; stable. -/
def sorted {α : Type*} (le : α → α → Bool) (xs : List α) : List α :=
  xs.insertionSort fun a b => le a b = true

@[simp] theorem mem_sorted {α : Type*} {le : α → α → Bool} {xs : List α} {x : α} :
    x ∈ sorted le xs ↔ x ∈ xs :=
  (List.perm_insertionSort _ xs).mem_iff

theorem nodup_map_sorted {α β : Type*} {le : α → α → Bool} {xs : List α} {f : α → β} (h : (xs.map f).Nodup) :
    ((sorted le xs).map f).Nodup :=
  ((List.perm_insertionSort (fun a b => le a b = true) xs).map f).nodup_iff.mpr h

section Sorted

variable {α : Type*} {le : α → α → Bool}

private theorem filter_orderedInsert_of_neg {keep : α → Bool} {x : α} (hx : keep x = false) (xs : List α) :
    (xs.orderedInsert (fun a b => le a b = true) x).filter keep = xs.filter keep := by
  induction xs with
  | nil => simp [hx]
  | cons y ys ih =>
    rw [List.orderedInsert_cons]
    split
    · simp [hx]
    · rw [List.filter_cons, ih, List.filter_cons]

private theorem filter_orderedInsert_of_pos {keep : α → Bool} {x : α} (hx : keep x = true)
    (htrans : ∀ a b c, le a b = true → le b c = true → le a c = true) {xs : List α}
    (hxs : xs.Pairwise fun a b => le a b = true) :
    (xs.orderedInsert (fun a b => le a b = true) x).filter keep =
      (xs.filter keep).orderedInsert (fun a b => le a b = true) x := by
  induction xs with
  | nil => simp [hx]
  | cons y ys ih =>
    obtain ⟨hy, hys⟩ := List.pairwise_cons.1 hxs
    rw [List.orderedInsert_cons]
    by_cases hxy : le x y = true
    · rw [if_pos hxy, List.filter_cons_of_pos hx]
      -- everything that is kept comes after `x`
      have hafter : ∀ z ∈ (y :: ys).filter keep, le x z = true := by
        intro z hz
        cases List.mem_cons.1 (List.mem_filter.1 hz).1 with
        | inl heq => exact heq ▸ hxy
        | inr hmem => exact htrans x y z hxy (hy z hmem)
      cases hkept : (y :: ys).filter keep with
      | nil => rfl
      | cons z zs =>
        rw [List.orderedInsert_cons, if_pos (hafter z (hkept ▸ List.mem_cons_self))]
    · rw [if_neg hxy]
      cases hkeep : keep y with
      | true =>
        rw [List.filter_cons_of_pos hkeep, List.filter_cons_of_pos hkeep, List.orderedInsert_cons, if_neg hxy, ih hys]
      | false =>
        have hdrop : ¬ keep y = true := by simp [hkeep]
        rw [List.filter_cons_of_neg hdrop, List.filter_cons_of_neg hdrop, ih hys]

/-- The sort is stable, so what a filter keeps comes in the order in which it would be sorted alone. -/
theorem filter_sorted (htotal : ∀ a b, le a b = true ∨ le b a = true)
    (htrans : ∀ a b c, le a b = true → le b c = true → le a c = true) (keep : α → Bool) (xs : List α) :
    (sorted le xs).filter keep = sorted le (xs.filter keep) := by
  have : Std.Total fun a b => le a b = true := ⟨htotal⟩
  have : IsTrans α fun a b => le a b = true := ⟨htrans⟩
  unfold sorted
  induction xs with
  | nil => rfl
  | cons x xs ih =>
    rw [List.insertionSort_cons]
    cases hx : keep x with
    | true =>
      rw [filter_orderedInsert_of_pos hx htrans (List.pairwise_insertionSort _ xs), ih, List.filter_cons_of_pos hx,
        List.insertionSort_cons]
    | false =>
      have hdrop : ¬ keep x = true := by simp [hx]
      rw [filter_orderedInsert_of_neg hx, ih, List.filter_cons_of_neg hdrop]

end Sorted

/-- Strings compare by code points. -/
def str_le (a b : String) : Bool := decide (a.toList ≤ b.toList)

/-- The Unicode tables behind `str` methods and the classes of `re`. -/
structure Unicode where
  lower : String → String
  is_word : Char → Bool
  is_digit : Char → Bool
  is_space : Char → Bool
  /-- Equal under `re.IGNORECASE`. -/
  same_letter : Char → Char → Bool

/-- The tables restricted to ASCII. -/
def Unicode.ascii : Unicode where
  lower s := String.ofList (s.toList.map Char.toLower)
  is_word c := c.isAlphanum || c == '_'
  is_digit c := c.isDigit
  is_space c := [' ', '\t', '\n', '\r', '\x0b', '\x0c', '\x1c', '\x1d', '\x1e', '\x1f'].contains c
  same_letter a b := a.toLower == b.toLower

/-- `needle in haystack`. -/
def contains (haystack needle : String) : Bool := decide (needle.toList <:+: haystack.toList)

def startswith (s pre : String) : Bool := pre.toList.isPrefixOf s.toList

def endswith (s suf : String) : Bool := suf.toList.isSuffixOf s.toList

def strip_leading (s pre : String) : String :=
  if startswith s pre then String.ofList (s.toList.drop pre.length) else s

@[simp] theorem startswith_append (pre s : String) : startswith (pre ++ s) pre = true := by
  rw [startswith, String.toList_append, List.isPrefixOf_iff_prefix]
  exact List.prefix_append _ _

@[simp] theorem strip_leading_append (pre s : String) : strip_leading (pre ++ s) pre = s := by
  rw [strip_leading, if_pos (startswith_append pre s), String.toList_append, ← String.length_toList,
    List.drop_left, String.ofList_toList]

/-- `s[:n]`. -/
def take_chars (s : String) (n : Nat) : String := String.ofList (s.toList.take n)

def strip (u : Unicode) (s : String) : String :=
  String.ofList (((s.toList.dropWhile u.is_space).reverse.dropWhile u.is_space).reverse)

def join (sep : String) (parts : List String) : String := sep.intercalate parts

/-- The run being read and the finished runs behind it. -/
private def runs_aux (p : Char → Bool) : List Char → List Char × List (List Char)
  | [] => ([], [])
  | c :: cs =>
    let (current, done) := runs_aux p cs
    if p c then (c :: current, done)
    else ([], if current.isEmpty then done else current :: done)

/-- The maximal runs of characters of one class: `re.findall` for a class followed by `+`,
`str.split` for the complement of a separator class. -/
def runs (p : Char → Bool) (s : String) : List String :=
  let (current, done) := runs_aux p s.toList
  (if current.isEmpty then done else current :: done).map String.ofList

private theorem runs_aux_sound (p : Char → Bool) (text : List Char) :
    (∀ c ∈ (runs_aux p text).1, p c = true) ∧ ∀ run ∈ (runs_aux p text).2, run ≠ [] ∧ ∀ c ∈ run, p c = true := by
  induction text with
  | nil => simp [runs_aux]
  | cons c text ih =>
    rw [runs_aux]
    dsimp only
    split
    · rename_i hc
      exact ⟨List.forall_mem_cons.2 ⟨hc, ih.1⟩, ih.2⟩
    · refine ⟨by simp, ?_⟩
      split
      · exact ih.2
      · rename_i hcurrent
        exact List.forall_mem_cons.2 ⟨⟨by simpa using hcurrent, ih.1⟩, ih.2⟩

theorem mem_runs {p : Char → Bool} {s run : String} (h : run ∈ runs p s) : run ≠ "" ∧ ∀ c ∈ run.toList, p c = true := by
  obtain ⟨hcurrent, hdone⟩ := runs_aux_sound p s.toList
  obtain ⟨text, htext, rfl⟩ := List.mem_map.1 h
  rw [String.toList_ofList]
  split at htext
  · exact ⟨by simpa using (hdone text htext).1, (hdone text htext).2⟩
  · rename_i hsome
    rcases List.mem_cons.1 htext with rfl | htext
    · exact ⟨by simpa using hsome, hcurrent⟩
    · exact ⟨by simpa using (hdone text htext).1, (hdone text htext).2⟩

private theorem runs_aux_subset (p : Char → Bool) (text : List Char) :
    (runs_aux p text).1 ⊆ text ∧ ∀ run ∈ (runs_aux p text).2, run ⊆ text := by
  induction text with
  | nil => simp [runs_aux]
  | cons c text ih =>
    have hlater : ∀ run ∈ (runs_aux p text).2, run ⊆ c :: text := fun run hrun =>
      List.subset_cons_of_subset c (ih.2 run hrun)
    rw [runs_aux]
    dsimp only
    split
    · exact ⟨List.cons_subset_cons c ih.1, hlater⟩
    · refine ⟨List.nil_subset _, ?_⟩
      split
      · exact hlater
      · exact List.forall_mem_cons.2 ⟨List.subset_cons_of_subset c ih.1, hlater⟩

/-- A run is made of the text's characters. -/
theorem run_subset {p : Char → Bool} {s run : String} (h : run ∈ runs p s) : run.toList ⊆ s.toList := by
  obtain ⟨hcurrent, hdone⟩ := runs_aux_subset p s.toList
  obtain ⟨text, htext, rfl⟩ := List.mem_map.1 h
  rw [String.toList_ofList]
  split at htext
  · exact hdone text htext
  · cases List.mem_cons.1 htext with
    | inl hfirst => exact hfirst ▸ hcurrent
    | inr hrest => exact hdone text hrest

private theorem runs_aux_append {p : Char → Bool} {run : List Char} (hrun : ∀ c ∈ run, p c = true) (rest : List Char) :
    runs_aux p (run ++ rest) = (run ++ (runs_aux p rest).1, (runs_aux p rest).2) := by
  induction run with
  | nil => rfl
  | cons c run ih =>
    rw [List.forall_mem_cons] at hrun
    rw [List.cons_append, runs_aux, ih hrun.2]
    exact if_pos hrun.1

private theorem runs_aux_intercalate {p : Char → Bool} {sep : Char} (hsep : p sep = false) (run : List Char)
    (others : List (List Char)) (hruns : ∀ part ∈ run :: others, part ≠ [] ∧ ∀ c ∈ part, p c = true) :
    runs_aux p ([sep].intercalate (run :: others)) = (run, others) := by
  induction others generalizing run with
  | nil =>
    rw [List.intercalate_singleton, ← List.append_nil run, runs_aux_append (hruns run List.mem_cons_self).2]
    simp [runs_aux]
  | cons next others ih =>
    rw [List.forall_mem_cons] at hruns
    have hnext := (hruns.2 next List.mem_cons_self).1
    rw [List.intercalate_cons_cons, List.append_assoc, runs_aux_append hruns.1.2, List.singleton_append, runs_aux,
      ih next hruns.2]
    simp [hsep, hnext]

/-- Words put together with a separator fall apart at it. -/
theorem runs_join {p : Char → Bool} {sep : Char} (hsep : p sep = false) {words : List String}
    (hwords : ∀ word ∈ words, word ≠ "" ∧ ∀ c ∈ word.toList, p c = true) : runs p (join (String.singleton sep) words) = words := by
  rw [runs, join, String.toList_intercalate, String.toList_singleton]
  cases words with
  | nil => rfl
  | cons word words =>
    have hparts : ∀ part ∈ (word :: words).map String.toList, part ≠ [] ∧ ∀ c ∈ part, p c = true := by
      intro part hpart
      obtain ⟨w, hw, rfl⟩ := List.mem_map.1 hpart
      exact ⟨by simpa using (hwords w hw).1, (hwords w hw).2⟩
    rw [List.map_cons] at hparts
    rw [List.map_cons, runs_aux_intercalate hsep _ _ hparts]
    have hid : ∀ w : String, (String.ofList ∘ String.toList) w = w := fun _ => String.ofList_toList
    have hfirst : ¬word.toList.isEmpty = true := by simpa using (hwords word List.mem_cons_self).1
    dsimp only
    rw [if_neg hfirst, List.map_cons, String.ofList_toList, List.map_map, List.map_congr_left fun w _ => hid w, List.map_id']

def is_line_break (c : Char) : Bool :=
  ['\n', '\r', '\x0b', '\x0c', '\x1c', '\x1d', '\x1e', '\u0085', '\u2028', '\u2029'].contains c

private def splitlines_aux : List Char → List (List Char)
  | [] => []
  | '\r' :: '\n' :: cs => [] :: splitlines_aux cs
  | c :: cs =>
    if is_line_break c then [] :: splitlines_aux cs
    else match splitlines_aux cs with
      | [] => [[c]]
      | line :: lines => (c :: line) :: lines

def splitlines (s : String) : List String := (splitlines_aux s.toList).map String.ofList

private def universal_lines_aux : List Char → List (List Char)
  | [] => []
  | '\r' :: '\n' :: cs => [] :: universal_lines_aux cs
  | c :: cs =>
    if c = '\n' ∨ c = '\r' then [] :: universal_lines_aux cs
    else match universal_lines_aux cs with
      | [] => [[c]]
      | line :: lines => (c :: line) :: lines

/-- The lines of a text under universal newlines, where a line feed, a carriage return or the two together end a
line and nothing else does. -/
def universal_lines (s : String) : List String := (universal_lines_aux s.toList).map String.ofList

/-- Lines, each with its line feed. -/
def terminated (lines : List (List Char)) : List Char := lines.flatMap (· ++ ['\n'])

@[simp] theorem terminated_nil : terminated [] = [] := rfl

@[simp] theorem terminated_cons (line : List Char) (lines : List (List Char)) :
    terminated (line :: lines) = line ++ '\n' :: terminated lines := by
  simp [terminated]

private theorem splitlines_aux_cons (c : Char) (text : List Char) :
    splitlines_aux (c :: text) =
      if c = '\r' ∧ text.head? = some '\n' then [] :: splitlines_aux text.tail
      else if is_line_break c then [] :: splitlines_aux text
      else match splitlines_aux text with
        | [] => [[c]]
        | line :: lines => (c :: line) :: lines := by
  by_cases hpair : c = '\r' ∧ text.head? = some '\n'
  · rw [if_pos hpair]
    obtain ⟨rfl, hhead⟩ := hpair
    cases text with
    | nil => simp at hhead
    | cons d text =>
      obtain rfl : d = '\n' := by simpa using hhead
      rw [splitlines_aux, List.tail_cons]
  · rw [if_neg hpair, splitlines_aux]
    rintro rest rfl rfl
    exact hpair ⟨rfl, rfl⟩

private theorem splitlines_aux_ne_nil (c : Char) (text : List Char) : splitlines_aux (c :: text) ≠ [] := by
  rw [splitlines_aux_cons]
  split
  · exact List.cons_ne_nil _ _
  · split
    · exact List.cons_ne_nil _ _
    · split
      · exact List.cons_ne_nil _ _
      · exact List.cons_ne_nil _ _

private theorem universal_lines_aux_cons (c : Char) (text : List Char) :
    universal_lines_aux (c :: text) =
      if c = '\r' ∧ text.head? = some '\n' then [] :: universal_lines_aux text.tail
      else if c = '\n' ∨ c = '\r' then [] :: universal_lines_aux text
      else match universal_lines_aux text with
        | [] => [[c]]
        | line :: lines => (c :: line) :: lines := by
  by_cases hpair : c = '\r' ∧ text.head? = some '\n'
  · rw [if_pos hpair]
    obtain ⟨rfl, hhead⟩ := hpair
    cases text with
    | nil => simp at hhead
    | cons d text =>
      obtain rfl : d = '\n' := by simpa using hhead
      rw [universal_lines_aux, List.tail_cons]
  · rw [if_neg hpair, universal_lines_aux]
    rintro rest rfl rfl
    exact hpair ⟨rfl, rfl⟩

private theorem length_cons_line (c : Char) (lines : List (List Char)) :
    (match lines with | [] => [[c]] | line :: lines => (c :: line) :: lines).length = max 1 lines.length := by
  cases lines with
  | nil => rfl
  | cons line lines =>
    rw [List.length_cons, List.length_cons]
    omega

/-- `splitlines` cuts wherever universal newlines do. -/
private theorem length_universal_lines_aux_le (text : List Char) :
    (universal_lines_aux text).length ≤ (splitlines_aux text).length := by
  induction hlength : text.length using Nat.strong_induction_on generalizing text with
  | _ n ih =>
    cases text with
    | nil => exact le_rfl
    | cons c text =>
      rw [List.length_cons] at hlength
      rw [universal_lines_aux_cons, splitlines_aux_cons]
      have htail := ih text.length (by omega) text rfl
      split
      · have hrest := ih text.tail.length (by rw [List.length_tail]; omega) text.tail rfl
        simpa using hrest
      · split
        · rename_i hnewline
          have hbreak : is_line_break c = true := by
            rcases hnewline with rfl | rfl
            · decide
            · decide
          rw [if_pos hbreak, List.length_cons, List.length_cons]
          omega
        · rw [length_cons_line]
          split
          · rw [List.length_cons]
            omega
          · rw [length_cons_line]
            omega

theorem length_universal_lines_le (s : String) : (universal_lines s).length ≤ (splitlines s).length := by
  rw [universal_lines, splitlines, List.length_map, List.length_map]
  exact length_universal_lines_aux_le s.toList

/-- Where no other separator stands in the text, the two agree. -/
theorem splitlines_eq_universal_lines {s : String}
    (h : ∀ c ∈ s.toList, is_line_break c = true → c = '\n' ∨ c = '\r') : splitlines s = universal_lines s := by
  have haux : ∀ text : List Char, (∀ c ∈ text, is_line_break c = true → c = '\n' ∨ c = '\r') →
      splitlines_aux text = universal_lines_aux text := by
    intro text
    induction hlength : text.length using Nat.strong_induction_on generalizing text with
    | _ n ih =>
      intro hbreaks
      cases text with
      | nil => rfl
      | cons c text =>
        rw [List.length_cons] at hlength
        rw [List.forall_mem_cons] at hbreaks
        rw [universal_lines_aux_cons, splitlines_aux_cons, ih text.length (by omega) text rfl hbreaks.2,
          ih text.tail.length (by rw [List.length_tail]; omega) text.tail rfl
            fun d hd => hbreaks.2 d (List.mem_of_mem_tail hd)]
        have hsame : is_line_break c = true ↔ c = '\n' ∨ c = '\r' := by
          refine ⟨hbreaks.1, ?_⟩
          rintro (rfl | rfl)
          · decide
          · decide
        simp only [hsame]
  rw [splitlines, universal_lines, haux s.toList h]

private theorem newline_not_mem_step {p b : Prop} [Decidable p] [Decidable b] {c : Char}
    {after lines : List (List Char)} (hc : ¬b → c ≠ '\n') (hafter : ∀ line ∈ after, '\n' ∉ line)
    (hlines : ∀ line ∈ lines, '\n' ∉ line) :
    ∀ line ∈ (if p then [] :: after else if b then [] :: lines else match lines with
      | [] => [[c]]
      | line :: lines => (c :: line) :: lines), '\n' ∉ line := by
  split
  · exact List.forall_mem_cons.2 ⟨List.not_mem_nil, hafter⟩
  · split
    · exact List.forall_mem_cons.2 ⟨List.not_mem_nil, hlines⟩
    · rename_i hb
      have hne : '\n' ≠ c := Ne.symm (hc hb)
      cases lines with
      | nil => simpa using hne
      | cons line lines =>
        rw [List.forall_mem_cons] at hlines
        exact List.forall_mem_cons.2 ⟨by simp [hne, hlines.1], hlines.2⟩

theorem newline_not_mem_universal_lines {s line : String} (h : line ∈ universal_lines s) : '\n' ∉ line.toList := by
  have haux : ∀ text : List Char, ∀ line ∈ universal_lines_aux text, '\n' ∉ line := by
    intro text
    induction hlength : text.length using Nat.strong_induction_on generalizing text with
    | _ n ih =>
      cases text with
      | nil => simp [universal_lines_aux]
      | cons c text =>
        rw [List.length_cons] at hlength
        rw [universal_lines_aux_cons]
        apply newline_not_mem_step
        · rintro hb rfl
          exact hb (.inl rfl)
        · exact ih text.tail.length (by rw [List.length_tail]; omega) text.tail rfl
        · exact ih text.length (by omega) text rfl
  obtain ⟨text, htext, rfl⟩ := List.mem_map.1 h
  rw [String.toList_ofList]
  exact haux s.toList text htext

theorem newline_not_mem_splitlines {s line : String} (h : line ∈ splitlines s) : '\n' ∉ line.toList := by
  have haux : ∀ text : List Char, ∀ line ∈ splitlines_aux text, '\n' ∉ line := by
    intro text
    induction hlength : text.length using Nat.strong_induction_on generalizing text with
    | _ n ih =>
      cases text with
      | nil => simp [splitlines_aux]
      | cons c text =>
        rw [List.length_cons] at hlength
        rw [splitlines_aux_cons]
        apply newline_not_mem_step
        · rintro hb rfl
          exact hb (by decide)
        · exact ih text.tail.length (by rw [List.length_tail]; omega) text.tail rfl
        · exact ih text.length (by omega) text rfl
  obtain ⟨text, htext, rfl⟩ := List.mem_map.1 h
  rw [String.toList_ofList]
  exact haux s.toList text htext

/-- A line feed ends a line, whatever comes after it. -/
private theorem splitlines_aux_append_newline (text rest : List Char) :
    splitlines_aux (text ++ '\n' :: rest) = splitlines_aux (text ++ ['\n']) ++ splitlines_aux rest := by
  induction hlength : text.length using Nat.strong_induction_on generalizing text with
  | _ n ih =>
    cases text with
    | nil =>
      simp [splitlines_aux, is_line_break]
    | cons c text =>
      have hhead : (text ++ '\n' :: rest).head? = (text ++ ['\n']).head? := by cases text <;> rfl
      have hstep := ih text.length (by rw [← hlength, List.length_cons]; omega) text rfl
      rw [List.cons_append, List.cons_append, splitlines_aux_cons, splitlines_aux_cons c (text ++ ['\n']), hhead]
      by_cases hpair : c = '\r' ∧ (text ++ ['\n']).head? = some '\n'
      · rw [if_pos hpair, if_pos hpair, List.cons_append]
        congr 1
        cases text with
        | nil => simp [splitlines_aux]
        | cons d text => exact ih text.length (by rw [← hlength, List.length_cons, List.length_cons]; omega) text rfl
      · rw [if_neg hpair, if_neg hpair]
        by_cases hbreak : is_line_break c = true
        · rw [if_pos hbreak, if_pos hbreak, hstep, List.cons_append]
        · rw [if_neg hbreak, if_neg hbreak, hstep]
          cases hlines : splitlines_aux (text ++ ['\n']) with
          | nil =>
            obtain ⟨d, others, hothers⟩ := List.exists_cons_of_ne_nil (List.concat_ne_nil '\n' text)
            rw [hothers] at hlines
            exact absurd hlines (splitlines_aux_ne_nil d others)
          | cons line lines => rfl

private theorem splitlines_aux_line {line : List Char} (hline : ∀ c ∈ line, is_line_break c = false) (rest : List Char) :
    splitlines_aux (line ++ '\n' :: rest) = line :: splitlines_aux rest := by
  induction line with
  | nil => simp [splitlines_aux, is_line_break]
  | cons c line ih =>
    have hc := hline c List.mem_cons_self
    have hreturn : ¬(c = '\r' ∧ (line ++ '\n' :: rest).head? = some '\n') := by
      rintro ⟨rfl, -⟩
      revert hc
      decide
    rw [List.cons_append, splitlines_aux_cons, if_neg hreturn, hc, if_neg Bool.false_ne_true,
      ih fun d hd => hline d (List.mem_cons_of_mem _ hd)]

private theorem splitlines_aux_terminated {lines : List (List Char)}
    (hlines : ∀ line ∈ lines, ∀ c ∈ line, is_line_break c = false) : splitlines_aux (terminated lines) = lines := by
  induction lines with
  | nil => rfl
  | cons line lines ih =>
    rw [terminated_cons, splitlines_aux_line (hlines line List.mem_cons_self),
      ih fun other hother => hlines other (List.mem_cons_of_mem _ hother)]

/-- The lines of whole lines put behind a text that ends in a line feed. -/
theorem splitlines_append_terminated {before : List Char} {lines : List (List Char)}
    (hbefore : before = [] ∨ before.getLast? = some '\n')
    (hlines : ∀ line ∈ lines, ∀ c ∈ line, is_line_break c = false) :
    splitlines (String.ofList (before ++ terminated lines)) =
      splitlines (String.ofList before) ++ lines.map String.ofList := by
  rw [splitlines, splitlines, String.toList_ofList, String.toList_ofList, ← List.map_append]
  congr 1
  rcases hbefore with rfl | hlast
  · rw [List.nil_append, splitlines_aux_terminated hlines]
    rfl
  · obtain ⟨front, rfl⟩ := List.getLast?_eq_some_iff.1 hlast
    rw [List.append_assoc, List.singleton_append, splitlines_aux_append_newline, splitlines_aux_terminated hlines]

/-- `s.split(sep)`, for a separator of one character. -/
def split_on (sep : Char) (s : String) : List String := (s.toList.splitOn sep).map String.ofList

theorem not_mem_of_mem_split_on {sep : Char} {s part : String} (h : part ∈ split_on sep s) : sep ∉ part.toList := by
  have hparts : ∀ text : List Char, ∀ part ∈ text.splitOn sep, sep ∉ part := by
    intro text
    induction text with
    | nil => simp
    | cons c text ih =>
      rw [List.splitOn_cons_eq_if_modifyHead]
      split
      · simpa using ih
      · rename_i hc
        obtain ⟨first, rest, hsplit⟩ := List.exists_cons_of_ne_nil (List.splitOn_ne_nil sep text)
        rw [hsplit, List.forall_mem_cons] at ih
        rw [hsplit, List.modifyHead_cons, List.forall_mem_cons]
        rw [beq_iff_eq] at hc
        exact ⟨by simp [ih.1, Ne.symm hc], ih.2⟩
  obtain ⟨text, htext, rfl⟩ := List.mem_map.1 h
  rw [String.toList_ofList]
  exact hparts _ text htext

theorem split_on_eq_iff {sep : Char} {s : String} {parts : List String} (hne : parts ≠ [])
    (hparts : ∀ part ∈ parts, sep ∉ part.toList) :
    split_on sep s = parts ↔ s.toList = [sep].intercalate (parts.map String.toList) := by
  constructor
  · rintro rfl
    have hid : ∀ text ∈ s.toList.splitOn sep, (String.toList ∘ String.ofList) text = text := fun _ _ => String.toList_ofList
    rw [split_on, List.map_map, List.map_congr_left hid, List.map_id', List.intercalate_splitOn]
  · intro h
    have hid : ∀ part ∈ parts, (String.ofList ∘ String.toList) part = part := fun _ _ => String.ofList_toList
    rw [split_on, h, List.splitOn_intercalate sep (by simpa using hparts) (by simpa using hne), List.map_map,
      List.map_congr_left hid, List.map_id']

/-- Texts put together with a separator that none of them has fall apart at it. -/
theorem split_on_join {sep : Char} {parts : List String} (hne : parts ≠ []) (hparts : ∀ part ∈ parts, sep ∉ part.toList) :
    split_on sep (join (String.singleton sep) parts) = parts := by
  rw [split_on_eq_iff hne hparts, join, String.toList_intercalate, String.toList_singleton]

private def before_first_aux (sep : List Char) : List Char → List Char
  | [] => []
  | c :: cs => if sep.isPrefixOf (c :: cs) then [] else c :: before_first_aux sep cs

/-- `s.split(sep, 1)[0]`. -/
def before_first (sep s : String) : String := String.ofList (before_first_aux sep.toList s.toList)

private def rpartition_aux (sep : List Char) : List Char → Option (List Char × List Char)
  | [] => none
  | c :: cs =>
    match rpartition_aux sep cs with
    | some (before, after) => some (c :: before, after)
    | none =>
      if sep.isPrefixOf (c :: cs) then some ([], (c :: cs).drop sep.length) else none

/-- `s.rpartition(sep)`; `none` where Python returns an empty separator. -/
def rpartition (s sep : String) : Option (String × String) :=
  (rpartition_aux sep.toList s.toList).map fun (before, after) =>
    (String.ofList before, String.ofList after)

private theorem rpartition_aux_eq_none {sep s : List Char} (hsep : sep ≠ []) :
    rpartition_aux sep s = none ↔ ¬sep <:+: s := by
  induction s with
  | nil => simpa [rpartition_aux] using hsep
  | cons c cs ih =>
    rw [rpartition_aux, List.infix_cons_iff, not_or]
    cases hrest : rpartition_aux sep cs with
    | some found =>
      have hlater : ¬¬sep <:+: cs := mt ih.2 (by simp [hrest])
      simp [hlater]
    | none =>
      have hlater : ¬sep <:+: cs := ih.1 hrest
      simp [hlater, List.isPrefixOf_iff_prefix]

private theorem rpartition_aux_append {sep after : List Char} (hsep : sep ≠ []) (h : ¬sep <:+: sep.tail ++ after)
    (before : List Char) : rpartition_aux sep (before ++ sep ++ after) = some (before, after) := by
  induction before with
  | nil =>
    obtain ⟨c, cs, rfl⟩ := List.exists_cons_of_ne_nil hsep
    rw [List.tail_cons] at h
    have hlater : rpartition_aux (c :: cs) (cs ++ after) = none := (rpartition_aux_eq_none hsep).2 h
    have hhere : (c :: cs).isPrefixOf (c :: (cs ++ after)) = true := by
      rw [List.isPrefixOf_iff_prefix, ← List.cons_append]
      exact List.prefix_append _ _
    rw [List.nil_append, List.cons_append, rpartition_aux, hlater]
    dsimp only
    rw [if_pos hhere, ← List.cons_append, List.drop_left]
  | cons c before ih => rw [List.cons_append, List.cons_append, rpartition_aux, ih]

private theorem rpartition_aux_some {sep : List Char} (hsep : sep ≠ []) {s before after : List Char}
    (h : rpartition_aux sep s = some (before, after)) : ¬sep <:+: sep.tail ++ after := by
  induction s generalizing before with
  | nil => simp [rpartition_aux] at h
  | cons c cs ih =>
    rw [rpartition_aux] at h
    split at h
    · rename_i before' after' hlater
      simp only [Option.some.injEq, Prod.mk.injEq] at h
      exact ih (h.2 ▸ hlater)
    · rename_i hnone
      split at h
      · rename_i hhere
        simp only [Option.some.injEq, Prod.mk.injEq] at h
        obtain ⟨rest, hrest⟩ := List.isPrefixOf_iff_prefix.1 hhere
        obtain ⟨first, tail, rfl⟩ := List.exists_cons_of_ne_nil hsep
        have hcs : cs = tail ++ rest := (List.cons.inj hrest).2.symm
        rw [← hrest, List.drop_left] at h
        rw [← h.2, List.tail_cons, ← hcs]
        exact (rpartition_aux_eq_none hsep).1 hnone
      · simp at h

/-- A text splits at its separator from the right if and only if none starts further right. -/
theorem rpartition_append_iff {sep : String} (hsep : sep.toList ≠ []) (before after : String) :
    rpartition (before ++ sep ++ after) sep = some (before, after) ↔ ¬sep.toList <:+: sep.toList.tail ++ after.toList := by
  rw [rpartition, String.toList_append, String.toList_append]
  constructor
  · intro h
    obtain ⟨found, hfound, heq⟩ := Option.map_eq_some_iff.1 h
    simp only [Prod.mk.injEq] at heq
    rw [← heq.2, String.toList_ofList]
    exact rpartition_aux_some hsep hfound
  · intro h
    rw [rpartition_aux_append hsep h]
    simp

private theorem before_first_aux_append_iff {sep : List Char} (hsep : sep ≠ []) (before after : List Char) :
    before_first_aux sep (before ++ sep ++ after) = before ↔ ¬sep <:+: before ++ sep.dropLast := by
  induction before with
  | nil =>
    obtain ⟨c, cs, rfl⟩ := List.exists_cons_of_ne_nil hsep
    have hhere : (c :: cs).isPrefixOf (c :: (cs ++ after)) = true := by
      rw [List.isPrefixOf_iff_prefix, ← List.cons_append]
      exact List.prefix_append _ _
    have hshort : ¬c :: cs <:+: (c :: cs).dropLast := by
      intro h
      have hlength := h.length_le
      rw [List.length_dropLast, List.length_cons] at hlength
      omega
    rw [List.nil_append, List.cons_append, before_first_aux, if_pos hhere, List.nil_append]
    exact iff_of_true rfl hshort
  | cons c before ih =>
    have hprefix : sep <+: c :: (before ++ sep ++ after) ↔ sep <+: c :: (before ++ sep.dropLast) := by
      have hwhole : c :: (before ++ sep.dropLast) <+: c :: (before ++ sep ++ after) := by
        rw [List.cons_prefix_cons, List.append_assoc, List.prefix_append_right_inj]
        exact ⟨rfl, (List.dropLast_prefix sep).trans (List.prefix_append _ _)⟩
      constructor
      · intro h
        apply List.prefix_of_prefix_length_le h hwhole
        simp only [List.length_cons, List.length_append, List.length_dropLast]
        omega
      · exact fun h => h.trans hwhole
    rw [List.cons_append, List.cons_append, before_first_aux, List.cons_append, List.infix_cons_iff, not_or, ← hprefix,
      ← ih, ← List.isPrefixOf_iff_prefix]
    by_cases hhere : sep.isPrefixOf (c :: (before ++ sep ++ after)) = true
    · rw [if_pos hhere]
      exact iff_of_false (List.cons_ne_nil c before).symm fun h => h.1 hhere
    · rw [if_neg hhere, List.cons_inj_right]
      exact (and_iff_right hhere).symm

/-- A text splits at its separator from the left if and only if none starts further left. -/
theorem before_first_append_iff {sep : String} (hsep : sep.toList ≠ []) (before after : String) :
    before_first sep (before ++ sep ++ after) = before ↔ ¬sep.toList <:+: before.toList ++ sep.toList.dropLast := by
  rw [← before_first_aux_append_iff hsep before.toList after.toList, before_first, String.toList_append,
    String.toList_append]
  constructor
  · intro h
    rw [← String.toList_ofList (l := before_first_aux _ _), h]
  · intro h
    rw [h, String.ofList_toList]

theorem before_first_opens (sep s : String) : (before_first sep s).toList <+: s.toList := by
  have hprefix : ∀ text : List Char, before_first_aux sep.toList text <+: text := by
    intro text
    induction text with
    | nil => exact List.prefix_refl []
    | cons c text ih =>
      rw [before_first_aux]
      split
      · exact List.nil_prefix
      · rw [List.cons_prefix_cons]
        exact ⟨rfl, ih⟩
  rw [before_first, String.toList_ofList]
  exact hprefix s.toList

theorem not_mem_before_first (sep : Char) (s : String) : sep ∉ (before_first (String.singleton sep) s).toList := by
  have hnot : ∀ text : List Char, sep ∉ before_first_aux [sep] text := by
    intro text
    induction text with
    | nil => exact List.not_mem_nil
    | cons c text ih =>
      rw [before_first_aux]
      split
      · exact List.not_mem_nil
      · rename_i hc
        rw [List.mem_cons, not_or]
        refine ⟨?_, ih⟩
        rintro rfl
        simp at hc
  rw [before_first, String.toList_ofList, String.toList_singleton]
  exact hnot s.toList

/-- Where one separator alone can be read off, a text is put together around it in one way. -/
theorem append_sep_inj {sep before after before' after' : List Char} (hsep : sep ≠ [])
    (hleft : ¬sep <:+: before ++ sep.dropLast) (hright : ¬sep <:+: sep.tail ++ after)
    (h : before' ++ (sep ++ after') = before ++ (sep ++ after)) : before' = before ∧ after' = after := by
  rcases List.append_eq_append_iff.1 h with ⟨between, hbefore, hrest⟩ | ⟨between, hbefore, hrest⟩
  · cases between with
    | nil => simp_all
    | cons c between =>
      exfalso
      apply hleft
      have hlonger : sep <+: c :: between ++ (sep ++ after) := hrest ▸ List.prefix_append sep after'
      have hcut : c :: between ++ sep.dropLast <+: c :: between ++ (sep ++ after) := by
        rw [List.prefix_append_right_inj]
        exact (List.dropLast_prefix sep).trans (List.prefix_append sep after)
      have hprefix : sep <+: c :: between ++ sep.dropLast := by
        apply List.prefix_of_prefix_length_le hlonger hcut
        simp only [List.length_cons, List.length_append, List.length_dropLast]
        omega
      rw [hbefore, List.append_assoc]
      exact hprefix.isInfix.trans (List.suffix_append before' _).isInfix
  · cases between with
    | nil => simp_all
    | cons c between =>
      exfalso
      apply hright
      obtain ⟨first, rest, rfl⟩ := List.exists_cons_of_ne_nil hsep
      have htail : rest ++ after = between ++ (first :: rest ++ after') := (List.cons.inj hrest).2
      rw [List.tail_cons, htail]
      exact ⟨between, after', by rw [List.append_assoc]⟩

/-- `path.rsplit("/", 1)[-1]`. -/
def basename (path : String) : String := ((rpartition path "/").map (·.2)).getD path

/-- `re.search` for an escaped literal; `guard` is given the character before the match, the match
and the character after it, and `prev` is the character before the text still to be scanned. -/
def search (same : Char → Char → Bool) (guard : Option Char → List Char → Option Char → Bool)
    (needle : List Char) (prev : Option Char) (text : List Char) : Bool :=
  let hit := needle.length ≤ text.length && (needle.zip text).all (fun (a, b) => same a b) &&
    guard prev (text.take needle.length) (text.drop needle.length).head?
  match text with
  | [] => hit
  | c :: cs => hit || search same guard needle (some c) cs

/-- `re.finditer`: `matcher` is given the character before a position and the text from there on,
and answers the captured group and the length of the match. `skip` counts the characters of the
last match that are still to be passed over. -/
def finditer (matcher : Option Char → List Char → Option (List Char × Nat)) (skip : Nat)
    (prev : Option Char) (text : List Char) : List (String × String) :=
  match text, skip with
  | [], _ => []
  | c :: cs, skip + 1 => finditer matcher skip (some c) cs
  | c :: cs, 0 =>
    match matcher prev (c :: cs) with
    | some (group, len) =>
      (String.ofList group, String.ofList ((c :: cs).take len)) ::
        finditer matcher (len - 1) (some c) cs
    | none => finditer matcher 0 (some c) cs

example : splitlines "a\r\n\nb" = ["a", "", "b"] := by decide

example : runs Char.isDigit "AB#12, v3" = ["12", "3"] := by decide

end AgenticKb.Lib

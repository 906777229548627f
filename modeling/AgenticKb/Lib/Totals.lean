import Mathlib.Algebra.BigOperators.Group.List.Basic
import AgenticKb.Lib.Python

namespace AgenticKb.Lib

/-! Dictionaries of amounts and what they add up to. -/

namespace Dict

variable {κ α : Type*} [DecidableEq κ] [AddCommMonoid α]

/-- `d[k]`, of a key that may be missing. -/
def amount (d : Dict κ α) (k : κ) : α := (d.get? k).getD 0

/-- `d[k] += x` -/
def add (d : Dict κ α) (k : κ) (x : α) : Dict κ α := d.set k (d.amount k + x)

def total (d : Dict κ α) : α := (d.map (·.2)).sum

section Lemmas

variable {d : Dict κ α} {k k' : κ} {x : α}

theorem amount_add : (d.add k x).amount k' = if k' = k then d.amount k + x else d.amount k' := by
  rw [amount, add, get?_set]
  split
  · rfl
  · rfl

theorem keys_add (h : k ∈ d.map (·.1)) : (d.add k x).map (·.1) = d.map (·.1) := by
  have hany : d.any (·.1 == k) = true := by simpa [List.any_eq_true] using h
  rw [add, set, if_pos hany, List.map_map]
  refine List.map_congr_left fun entry _ => ?_
  by_cases hk : entry.1 = k
  · simp [hk]
  · simp [hk]

theorem amount_cons {entry : κ × α} : amount (entry :: d) k = if k = entry.1 then entry.2 else d.amount k := by
  rw [amount, get?, List.lookup_cons]
  by_cases hk : k = entry.1
  · rw [if_pos hk, beq_iff_eq.2 hk]
    rfl
  · rw [if_neg hk, beq_eq_false_iff_ne.2 hk]
    rfl

/-- The entries are the amounts of the keys. -/
theorem map_snd_eq (hnodup : (d.map (·.1)).Nodup) : d.map (·.2) = (d.map (·.1)).map d.amount := by
  induction d with
  | nil => rfl
  | cons entry d ih =>
    rw [List.map_cons, List.nodup_cons] at hnodup
    rw [List.map_cons, List.map_cons, List.map_cons, amount_cons, if_pos rfl, ih hnodup.2]
    congr 1
    refine List.map_congr_left fun key hkey => ?_
    rw [amount_cons, if_neg]
    rintro rfl
    exact hnodup.1 hkey

theorem sum_amount (hnodup : (d.map (·.1)).Nodup) : ((d.map (·.1)).map d.amount).sum = d.total := by
  rw [total, map_snd_eq hnodup]

/-- Adding to one entry adds to the total. -/
theorem total_add (hnodup : (d.map (·.1)).Nodup) (hk : k ∈ d.map (·.1)) : (d.add k x).total = d.total + x := by
  rw [← sum_amount hnodup, ← sum_amount (by rwa [keys_add hk]), keys_add hk]
  generalize d.map (·.1) = keys at hnodup hk
  induction keys with
  | nil => simp at hk
  | cons key keys ih =>
    rw [List.nodup_cons] at hnodup
    rw [List.map_cons, List.map_cons, List.sum_cons, List.sum_cons, amount_add]
    by_cases hkey : key = k
    · have hrest : keys.map (d.add k x).amount = keys.map d.amount := by
        refine List.map_congr_left fun other hother => ?_
        rw [amount_add, if_neg]
        rintro rfl
        exact hnodup.1 (hkey ▸ hother)
      rw [if_pos hkey, hrest, hkey]
      exact add_right_comm _ _ _
    · rw [if_neg hkey, ih hnodup.2 ((List.mem_cons.1 hk).resolve_left (Ne.symm hkey)), add_assoc]

end Lemmas

section Map

variable {keys : List κ} {f : κ → α}

theorem amount_map {k : κ} (h : k ∈ keys) : amount (keys.map fun key => (key, f key)) k = f k := by
  induction keys with
  | nil => simp at h
  | cons key keys ih =>
    rw [List.map_cons, amount_cons]
    by_cases hk : k = key
    · rw [if_pos hk, hk]
    · rw [if_neg hk, ih ((List.mem_cons.1 h).resolve_left hk)]

omit [DecidableEq κ] [AddCommMonoid α] in
theorem keys_map : (keys.map fun key => (key, f key)).map (·.1) = keys := by
  rw [List.map_map]
  exact List.map_id' keys

/-- Adding the same to a list of entries adds it that many times. -/
theorem total_foldl_add {d : Dict κ α} {x : α} (hnodup : (d.map (·.1)).Nodup) (hkeys : ∀ k ∈ keys, k ∈ d.map (·.1)) :
    (keys.foldl (fun (d : Dict κ α) k => d.add k x) d).map (·.1) = d.map (·.1) ∧
      (keys.foldl (fun (d : Dict κ α) k => d.add k x) d).total = d.total + keys.length • x := by
  induction keys generalizing d with
  | nil => simp
  | cons key keys ih =>
    rw [List.forall_mem_cons] at hkeys
    have hsame : (d.add key x).map (·.1) = d.map (·.1) := keys_add hkeys.1
    obtain ⟨hlater, htotal⟩ := ih (d := d.add key x) (by rwa [hsame]) (by rw [hsame]; exact hkeys.2)
    rw [List.foldl_cons]
    refine ⟨hlater.trans hsame, ?_⟩
    rw [htotal, total_add hnodup hkeys.1, List.length_cons, succ_nsmul', add_assoc]

end Map

end Dict

end AgenticKb.Lib

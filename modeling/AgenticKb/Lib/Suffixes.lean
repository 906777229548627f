import Mathlib.Data.List.Nodup

namespace AgenticKb.Lib

/-! Names for a list of items: an item whose name is taken gets a suffix. -/

section Suffixes

variable {α κ : Type*} [DecidableEq κ] (key suffixed : α → κ)

/-- Each item beside its name, when the names in `seen` are taken. -/
def named (seen : List κ) : List α → List (α × κ)
  | [] => []
  | item :: items =>
    (item, if key item ∈ seen then suffixed item else key item) :: named (key item :: seen) items

/-- The items that get a suffix. -/
def repeated (seen : List κ) : List α → List α
  | [] => []
  | item :: items =>
    if key item ∈ seen then item :: repeated (key item :: seen) items else repeated (key item :: seen) items

/-- The names that are given without a suffix. -/
private def plain_names (seen : List κ) : List α → List κ
  | [] => []
  | item :: items =>
    if key item ∈ seen then plain_names (key item :: seen) items
    else key item :: plain_names (key item :: seen) items

theorem map_fst_named (seen : List κ) (items : List α) : (named key suffixed seen items).map (·.1) = items := by
  induction items generalizing seen with
  | nil => rfl
  | cons item items ih => rw [named, List.map_cons, ih]

variable {key suffixed}

theorem mem_named {seen : List κ} {items : List α} {entry : α × κ} (h : entry ∈ named key suffixed seen items) :
    entry.2 = key entry.1 ∨ entry.2 = suffixed entry.1 := by
  induction items generalizing seen with
  | nil => simp [named] at h
  | cons item items ih =>
    rcases List.mem_cons.1 h with rfl | h
    · dsimp only
      split
      · exact .inr rfl
      · exact .inl rfl
    · exact ih h

private theorem mem_plain_names {seen : List κ} {items : List α} {name : κ} :
    name ∈ plain_names key seen items ↔ name ∉ seen ∧ name ∈ items.map key := by
  induction items generalizing seen with
  | nil => simp [plain_names]
  | cons item items ih =>
    rw [plain_names, List.map_cons, List.mem_cons]
    split
    · rename_i hseen
      rw [ih, List.mem_cons, not_or]
      constructor
      · rintro ⟨⟨-, hfresh⟩, hlater⟩
        exact ⟨hfresh, .inr hlater⟩
      · rintro ⟨hfresh, rfl | hlater⟩
        · exact absurd hseen hfresh
        · exact ⟨⟨fun heq => hfresh (heq ▸ hseen), hfresh⟩, hlater⟩
    · rename_i hnew
      rw [List.mem_cons, ih, List.mem_cons, not_or]
      by_cases heq : name = key item
      · simp [heq, hnew]
      · simp [heq]

private theorem nodup_plain_names (seen : List κ) (items : List α) : (plain_names key seen items).Nodup := by
  induction items generalizing seen with
  | nil => exact List.nodup_nil
  | cons item items ih =>
    rw [plain_names]
    split
    · exact ih _
    · rw [List.nodup_cons, mem_plain_names]
      exact ⟨fun h => h.1 List.mem_cons_self, ih _⟩

private theorem named_perm (seen : List κ) (items : List α) :
    ((named key suffixed seen items).map (·.2)).Perm
      (plain_names key seen items ++ (repeated key seen items).map suffixed) := by
  induction items generalizing seen with
  | nil => exact .nil
  | cons item items ih =>
    rw [named, plain_names, repeated, List.map_cons]
    split
    · rw [List.map_cons]
      exact ((ih _).cons _).trans List.perm_middle.symm
    · exact (ih _).cons _

/-- The names are distinct if and only if the suffixed ones are, and none of them is a name without a suffix. -/
theorem nodup_named_iff {items : List α} :
    ((named key suffixed [] items).map (·.2)).Nodup ↔
      ((repeated key [] items).map suffixed).Nodup ∧
        ∀ again ∈ repeated key [] items, ∀ item ∈ items, key item ≠ suffixed again := by
  rw [(named_perm [] items).nodup_iff, List.nodup_append]
  constructor
  · rintro ⟨-, hsuffixed, hapart⟩
    refine ⟨hsuffixed, fun again hagain item hitem => ?_⟩
    apply hapart
    · exact mem_plain_names.2 ⟨List.not_mem_nil, List.mem_map_of_mem hitem⟩
    · exact List.mem_map_of_mem hagain
  · rintro ⟨hsuffixed, hapart⟩
    refine ⟨nodup_plain_names [] items, hsuffixed, fun name hname other hother => ?_⟩
    obtain ⟨item, hitem, rfl⟩ := List.mem_map.1 (mem_plain_names.1 hname).2
    obtain ⟨again, hagain, rfl⟩ := List.mem_map.1 hother
    exact hapart again hagain item hitem

end Suffixes

end AgenticKb.Lib

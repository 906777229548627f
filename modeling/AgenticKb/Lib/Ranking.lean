import Mathlib.Data.List.MinMax
import Mathlib.Data.List.Perm.Basic
import Mathlib.Data.List.TakeDrop
import AgenticKb.Lib.Python

namespace AgenticKb.Lib

/-! Lists ranked by a key, and the greedy choice of entries that are apart from all better ones. -/

section Sorted

variable {α β : Type*} [LinearOrder β] {le : α → α → Bool} {key : α → β}

theorem pairwise_sorted (hle : ∀ a b, le a b = true ↔ key a ≤ key b) (xs : List α) :
    (sorted le xs).Pairwise fun a b => key a ≤ key b := by
  have : Std.Total fun a b => le a b = true := ⟨fun a b => by simpa only [hle] using le_total (key a) (key b)⟩
  have : IsTrans α fun a b => le a b = true := ⟨fun a b c => by simpa only [hle] using le_trans⟩
  exact (List.pairwise_insertionSort (fun a b => le a b = true) xs).imp fun h => (hle _ _).1 h

theorem sorted_perm (xs : List α) : (sorted le xs).Perm xs := List.perm_insertionSort _ xs

/-- Where no two entries share a key, the ranking is strict. -/
theorem pairwise_lt_sorted (hle : ∀ a b, le a b = true ↔ key a ≤ key b) {xs : List α} (hkeys : (xs.map key).Nodup) :
    (sorted le xs).Pairwise fun a b => key a < key b := by
  have hnodup : ((sorted le xs).map key).Nodup := nodup_map_sorted hkeys
  rw [List.Nodup, List.pairwise_map] at hnodup
  exact (pairwise_sorted hle xs).imp₂ (fun _ _ hlt hne => lt_of_le_of_ne hlt hne) hnodup

/-- And it does not depend on the order in which the entries came. -/
theorem sorted_congr (hle : ∀ a b, le a b = true ↔ key a ≤ key b) {xs ys : List α} (hkeys : (xs.map key).Nodup)
    (hperm : xs.Perm ys) : sorted le xs = sorted le ys := by
  have hkeys' : (ys.map key).Nodup := (hperm.map key).nodup_iff.1 hkeys
  apply List.Perm.eq_of_pairwise _ (pairwise_lt_sorted hle hkeys) (pairwise_lt_sorted hle hkeys')
  · exact (sorted_perm xs).trans (hperm.trans (sorted_perm ys).symm)
  · exact fun a b _ _ hab hba => absurd hab hba.asymm

theorem str_le_iff (a b : String) : str_le a b = true ↔ a.toList ≤ b.toList := decide_eq_true_iff

theorem sorted_str_congr {xs ys : List String} (hperm : xs.Perm ys) : sorted str_le xs = sorted str_le ys := by
  apply List.Perm.eq_of_pairwise _ (pairwise_sorted str_le_iff xs) (pairwise_sorted str_le_iff ys)
  · exact (sorted_perm xs).trans (hperm.trans (sorted_perm ys).symm)
  · exact fun a b _ _ hab hba => String.ext (le_antisymm hab hba)

section Views

variable {γ : Type*} {f : α → γ} {g : γ → β} {xs ys : List α}

/-- What a sort by a key shows of its entries does not depend on their order, if entries that share a key look alike. -/
theorem map_sorted_congr (hle : ∀ a b, le a b = true ↔ g (f a) ≤ g (f b))
    (hties : ∀ a ∈ xs, ∀ b ∈ xs, g (f a) = g (f b) → f a = f b)
    (hperm : (xs.map f).Perm (ys.map f)) : (sorted le xs).map f = (sorted le ys).map f := by
  have hxs : ((sorted le xs).map f).Perm (xs.map f) := (sorted_perm xs).map f
  have hys : ((sorted le ys).map f).Perm (ys.map f) := (sorted_perm ys).map f
  have hpair : ∀ zs : List α, ((sorted le zs).map f).Pairwise fun c d => g c ≤ g d := by
    intro zs
    rw [List.pairwise_map]
    exact pairwise_sorted hle zs
  apply List.Perm.eq_of_pairwise _ (hpair xs) (hpair ys) (hxs.trans (hperm.trans hys.symm))
  intro c d hc hd hcd hdc
  obtain ⟨a, ha, rfl⟩ := List.mem_map.1 (hxs.mem_iff.1 hc)
  obtain ⟨b, hb, rfl⟩ := List.mem_map.1 (hperm.mem_iff.2 (hys.mem_iff.1 hd))
  exact hties a ha b hb (le_antisymm hcd hdc)

/-- Entries of one key stand in the order in which they came. -/
theorem filter_key_sorted (hle : ∀ a b, le a b = true ↔ g (f a) ≤ g (f b)) (k : β) (xs : List α) :
    (sorted le xs).filter (fun a => decide (g (f a) = k)) = xs.filter fun a => decide (g (f a) = k) := by
  have htotal : ∀ a b, le a b = true ∨ le b a = true := fun a b => by
    rw [hle, hle]
    exact le_total _ _
  have htrans : ∀ a b c, le a b = true → le b c = true → le a c = true := fun a b c => by
    rw [hle, hle, hle]
    exact le_trans
  rw [filter_sorted htotal htrans]
  apply List.Pairwise.insertionSort_eq
  rw [List.pairwise_filter]
  apply List.pairwise_of_forall
  intro a b ha hb
  rw [decide_eq_true_eq] at ha hb
  rw [hle, ha, hb]

/-- So if the order of two entries of one key does not show, they look alike. -/
theorem eq_of_map_sorted_swap (hle : ∀ a b, le a b = true ↔ g (f a) ≤ g (f b)) {a b : α} {rest : List α}
    (hkey : g (f a) = g (f b))
    (h : (sorted le (a :: b :: rest)).map f = (sorted le (b :: a :: rest)).map f) : f a = f b := by
  have hview : ∀ zs : List α, ((sorted le zs).map f).filter (fun c => decide (g c = g (f a))) =
      (zs.filter fun z => decide (g (f z) = g (f a))).map f := by
    intro zs
    rw [List.filter_map, ← filter_key_sorted hle]
    rfl
  have heq := congrArg (List.filter fun c => decide (g c = g (f a))) h
  rw [hview, hview] at heq
  simp only [List.filter_cons, hkey, decide_true, if_true, List.map_cons] at heq
  exact (List.cons.inj heq).1

end Views

end Sorted

section Best

variable {α β : Type*} [LinearOrder β] {key : α → β}

/-- The best element does not depend on the order in which the elements came, where no two share a key. -/
theorem argmax_congr {xs ys : List α} (hkeys : ∀ x ∈ xs, ∀ y ∈ xs, key x = key y → x = y) (hperm : xs.Perm ys) :
    xs.argmax key = ys.argmax key := by
  cases hx : xs.argmax key with
  | none =>
    rw [List.argmax_eq_none] at hx
    rw [hx] at hperm
    rw [← hperm.nil_eq]
    rfl
  | some x =>
    cases hy : ys.argmax key with
    | none =>
      rw [List.argmax_eq_none] at hy
      rw [hy] at hperm
      rw [hperm.eq_nil] at hx
      cases hx
    | some y =>
      have hxmem := List.argmax_mem hx
      have hymem := hperm.mem_iff.2 (List.argmax_mem hy)
      have hkey : key x = key y :=
        le_antisymm (List.le_of_mem_argmax (hperm.mem_iff.1 hxmem) hy) (List.le_of_mem_argmax hymem hx)
      rw [hkeys x hxmem y hymem hkey]

end Best

section Keyed

variable {α κ : Type*} [DecidableEq κ] {key : α → κ} {xs : List α}

theorem find?_key_iff (hkeys : (xs.map key).Nodup) {k : κ} {x : α} :
    (xs.find? fun y => key y == k) = some x ↔ x ∈ xs ∧ key x = k := by
  constructor
  · exact fun h => ⟨List.mem_of_find?_eq_some h, by simpa using List.find?_some h⟩
  · intro ⟨hmem, hkey⟩
    have hsome : (xs.find? fun y => key y == k).isSome := List.find?_isSome.2 ⟨x, hmem, beq_iff_eq.2 hkey⟩
    obtain ⟨y, hy⟩ := Option.isSome_iff_exists.1 hsome
    have hfound : key y = k := by simpa using List.find?_some hy
    have hsame : key y = key x := hfound.trans hkey.symm
    rw [hy, List.inj_on_of_nodup_map hkeys (List.mem_of_find?_eq_some hy) hmem hsame]

theorem find?_key_congr (hkeys : (xs.map key).Nodup) {ys : List α} (hperm : xs.Perm ys) (k : κ) :
    (xs.find? fun y => key y == k) = ys.find? fun y => key y == k := by
  apply Option.ext
  intro x
  rw [find?_key_iff hkeys, find?_key_iff ((hperm.map key).nodup_iff.1 hkeys), hperm.mem_iff]

end Keyed

section Greedy

variable {α : Type*} (similar : α → α → Bool)

/-- An entry is kept unless it is similar to one kept before it. -/
def keep_apart (ranked : List α) : List α :=
  ranked.foldl (fun kept x => if kept.any fun keeper => similar x keeper then kept else kept ++ [x]) []

theorem keep_apart_concat (ranked : List α) (x : α) :
    keep_apart similar (ranked ++ [x]) =
      if (keep_apart similar ranked).any fun keeper => similar x keeper then keep_apart similar ranked
      else keep_apart similar ranked ++ [x] := by
  rw [keep_apart, List.foldl_append, List.foldl_cons, List.foldl_nil]
  rfl

theorem keep_apart_sublist (ranked : List α) : (keep_apart similar ranked).Sublist ranked := by
  induction ranked using List.reverseRecOn with
  | nil => exact List.Sublist.refl _
  | append_singleton ranked x ih =>
    rw [keep_apart_concat]
    split
    · exact ih.trans (List.sublist_append_left _ _)
    · exact ih.append (List.Sublist.refl _)

/-- No entry kept is similar to one kept before it. -/
theorem keep_apart_pairwise (ranked : List α) :
    (keep_apart similar ranked).Pairwise fun better worse => similar worse better = false := by
  induction ranked using List.reverseRecOn with
  | nil => exact List.Pairwise.nil
  | append_singleton ranked x ih =>
    rw [keep_apart_concat]
    split
    · exact ih
    · rename_i hnone
      refine List.pairwise_append.2 ⟨ih, List.pairwise_singleton _ _, fun keeper hkeeper y hy => ?_⟩
      rw [List.mem_singleton.1 hy, ← Bool.not_eq_true]
      exact fun hsimilar => hnone (List.any_eq_true.2 ⟨keeper, hkeeper, hsimilar⟩)

/-- An entry that is not kept is similar to a better one that is. -/
theorem keep_apart_maximal {R : α → α → Prop} {ranked : List α} (hranked : ranked.Pairwise R) {x : α}
    (hx : x ∈ ranked) (hdropped : x ∉ keep_apart similar ranked) :
    ∃ keeper ∈ keep_apart similar ranked, R keeper x ∧ similar x keeper = true := by
  induction ranked using List.reverseRecOn with
  | nil => cases hx
  | append_singleton ranked last ih =>
    obtain ⟨hbefore, -, hlast⟩ := List.pairwise_append.1 hranked
    rw [keep_apart_concat] at hdropped ⊢
    split
    case isTrue hany =>
      rw [if_pos hany] at hdropped
      cases List.mem_append.1 hx with
      | inl hold => exact ih hbefore hold hdropped
      | inr hnew =>
        rw [List.mem_singleton.1 hnew]
        obtain ⟨keeper, hkeeper, hsimilar⟩ := List.any_eq_true.1 hany
        exact ⟨keeper, hkeeper, hlast keeper ((keep_apart_sublist similar ranked).mem hkeeper) last List.mem_cons_self,
          hsimilar⟩
    case isFalse hnone =>
      rw [if_neg hnone] at hdropped
      cases List.mem_append.1 hx with
      | inl hold =>
        obtain ⟨keeper, hkeeper, h⟩ := ih hbefore hold fun hmem => hdropped (List.mem_append_left _ hmem)
        exact ⟨keeper, List.mem_append_left _ hkeeper, h⟩
      | inr hnew => exact absurd (List.mem_append_right _ hnew) hdropped

end Greedy

section Top

variable {α β : Type*} [LinearOrder β] {key : α → β}

/-- What the best `n` of a strict ranking leave out ranks below all of them, and they are then full. -/
theorem take_best {xs : List α} (hsorted : xs.Pairwise fun a b => key a < key b) {n : Nat} {x : α} (hx : x ∈ xs)
    (hdropped : x ∉ xs.take n) : (xs.take n).length = n ∧ ∀ better ∈ xs.take n, key better < key x := by
  have hrest : x ∈ xs.drop n := by
    rw [← List.take_append_drop n xs, List.mem_append] at hx
    exact hx.resolve_left hdropped
  rw [← List.take_append_drop n xs] at hsorted
  refine ⟨?_, fun better hbetter => (List.pairwise_append.1 hsorted).2.2 better hbetter x hrest⟩
  have hlong := List.length_pos_of_mem hrest
  rw [List.length_drop] at hlong
  rw [List.length_take]
  omega

end Top

section Matched

variable {α β : Type*} {R : α → β → Prop} {xs : List α} {ys ys' : List β}

/-- What a partial map leaves comes from some of the list, in its order. -/
theorem forall₂_filterMap (f : α → Option β) (xs : List α) :
    ∃ xs' : List α, xs'.Sublist xs ∧ List.Forall₂ (fun x y => f x = some y) xs' (xs.filterMap f) := by
  induction xs with
  | nil => exact ⟨[], .slnil, .nil⟩
  | cons x xs ih =>
    obtain ⟨xs', hsub, hmatch⟩ := ih
    cases hx : f x with
    | none =>
      rw [List.filterMap_cons_none hx]
      exact ⟨xs', hsub.cons x, hmatch⟩
    | some y =>
      rw [List.filterMap_cons_some hx]
      exact ⟨x :: xs', hsub.cons_cons x, .cons hx hmatch⟩

theorem forall₂_sublist (h : List.Forall₂ R xs ys) (hsub : ys'.Sublist ys) :
    ∃ xs', xs'.Sublist xs ∧ List.Forall₂ R xs' ys' := by
  induction hsub generalizing xs with
  | slnil => exact ⟨[], List.nil_sublist _, .nil⟩
  | cons y _ ih =>
    cases h with
    | cons _ htail =>
      obtain ⟨xs', hsub', hmatch⟩ := ih htail
      exact ⟨xs', hsub'.cons _, hmatch⟩
  | cons_cons y _ ih =>
    cases h with
    | cons hhead htail =>
      obtain ⟨xs', hsub', hmatch⟩ := ih htail
      exact ⟨_ :: xs', hsub'.cons_cons _, .cons hhead hmatch⟩

theorem forall₂_perm (h : List.Forall₂ R xs ys) (hperm : ys.Perm ys') :
    ∃ xs', xs'.Perm xs ∧ List.Forall₂ R xs' ys' := by
  have hcomp : Relation.Comp (List.Forall₂ R) List.Perm xs ys' := ⟨ys, h, hperm⟩
  rw [List.forall₂_comp_perm_eq_perm_comp_forall₂] at hcomp
  obtain ⟨xs', hxs, hmatch⟩ := hcomp
  exact ⟨xs', hxs.symm, hmatch⟩

/-- Where each entry of a list has an image, the images come in its order. -/
theorem forall₂_mapM {f : α → Option β} (h : xs.mapM f = some ys) : List.Forall₂ (fun x y => f x = some y) xs ys := by
  induction xs generalizing ys with
  | nil =>
    obtain rfl := Option.some.inj h
    exact .nil
  | cons x xs ih =>
    simp only [List.mapM_cons, Option.bind_eq_bind, Option.bind_eq_some_iff, Option.pure_def] at h
    obtain ⟨y, hy, rest, hrest, hys⟩ := h
    obtain rfl := Option.some.inj hys
    exact .cons hy (ih hrest)

theorem exists_of_mem_forall₂ (h : List.Forall₂ R xs ys) {y : β} (hy : y ∈ ys) : ∃ x ∈ xs, R x y := by
  induction h with
  | nil => cases hy
  | cons hhead _ ih =>
    cases List.mem_cons.1 hy with
    | inl hfirst => exact ⟨_, List.mem_cons_self, hfirst ▸ hhead⟩
    | inr hrest =>
      obtain ⟨x, hx, hmatch⟩ := ih hrest
      exact ⟨x, List.mem_cons_of_mem _ hx, hmatch⟩

theorem exists_of_mem_mapM {f : α → Option β} (h : xs.mapM f = some ys) {y : β} (hy : y ∈ ys) : ∃ x ∈ xs, f x = some y :=
  exists_of_mem_forall₂ (forall₂_mapM h) hy

theorem forall₂_chain {γ : Type*} {S : β → γ → Prop} {T : α → γ → Prop} {zs : List γ} (h : List.Forall₂ R xs ys)
    (h' : List.Forall₂ S ys zs) (hlink : ∀ x y z, R x y → S y z → T x z) : List.Forall₂ T xs zs := by
  induction h generalizing zs with
  | nil =>
    cases h'
    exact .nil
  | cons hhead _ ih =>
    cases h' with
    | cons hhead' htail' => exact .cons (hlink _ _ _ hhead hhead') (ih htail')

end Matched

end AgenticKb.Lib

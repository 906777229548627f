import AgenticKb.AgentRunner.Replies

open AgenticKb.Lib

namespace AgenticKb.AgentRunner

section Attribution

variable (raw : String) (writable : List String)

/-- One block for one file. -/
def LoneBlock : Prop := (fences raw).length = 1 ∧ writable.length = 1

instance : Decidable (LoneBlock raw writable) := inferInstanceAs (Decidable (_ ∧ _))

/-- The file a block goes to: the only block to the only file, any other to the first file that is named before it. -/
def goes_to (fence : Nat × String) : Option String :=
  if LoneBlock raw writable then writable.head? else writable.find? (names (before_fence raw fence.1))

/-- The blocks that find a file to go to, beside that file. -/
def attributions : List (String × String) :=
  (fences raw).filterMap fun fence => (goes_to raw writable fence).map fun path => (path, fence.2)

/-- No block has two writable files named before it. -/
def Unambiguous : Prop :=
  ∀ fence ∈ fences raw, ∀ path ∈ writable, ∀ other ∈ writable, names (before_fence raw fence.1) path = true →
    names (before_fence raw fence.1) other = true → path = other

/-- No writable file is named before two blocks. -/
def NamedOnce : Prop :=
  (fences raw).Pairwise fun fence other => ∀ path ∈ writable, names (before_fence raw fence.1) path = true →
    names (before_fence raw other.1) path = false

/-- A line that titles what follows. -/
def is_heading (line : String) : Bool := startswith line "#" || (startswith line "**" && endswith line "**")

/-- The last heading before a place. -/
def nearest_heading (start : Nat) : Option String :=
  (split_on '\n' (String.ofList (raw.toList.take start))).reverse.find? is_heading

/-- A heading has a file's path or basename as one of its words. -/
def heads (heading path : String) : Bool :=
  (runs (fun c => !(['#', '*', ' '].contains c)) heading).any fun word => word == path || word == basename path

/-- The nearest heading before a block names a file. -/
def Headed (fence : Nat × String) (path : String) : Prop :=
  ∃ heading ∈ nearest_heading raw fence.1, heads heading path = true

/-- In whatever order the set is iterated, a block goes only to the file that the nearest heading names, and no two go to
one file; and the order does not show. -/
structure HeadingsObeyed : Prop where
  headed : ∀ order : List String, order.Perm writable → ∀ fence ∈ fences raw, ∀ path ∈ goes_to raw order fence,
    Headed raw fence path
  kept : ∀ order : List String, order.Perm writable →
    (fences raw).Pairwise fun fence other => ∀ path ∈ goes_to raw order fence, path ∉ goes_to raw order other
  ordered : ∀ order : List String, order.Perm writable → ∀ path,
    (parse_fenced_fallback raw order).get? path = (parse_fenced_fallback raw writable).get? path

/-- The nearest heading before a block names every writable file that stands in the text before it, and the only file of
a lone block; no block has two of them there, and no file stands there before two blocks. -/
structure HeadedApart : Prop where
  headed : ∀ fence ∈ fences raw, ∀ path ∈ writable,
    LoneBlock raw writable ∨ names (before_fence raw fence.1) path = true → Headed raw fence path
  apart : ¬LoneBlock raw writable → Unambiguous raw writable
  once : NamedOnce raw writable

end Attribution

section Blocks

variable {raw : String} {writable order : List String} {path body : String} {fence : Nat × String}

theorem LoneBlock.perm (raw : String) (hperm : order.Perm writable) : LoneBlock raw order ↔ LoneBlock raw writable := by
  rw [LoneBlock, LoneBlock, hperm.length_eq]

theorem goes_to_lone (h : LoneBlock raw writable) : goes_to raw writable fence = writable.head? := if_pos h

theorem goes_to_named (h : ¬LoneBlock raw writable) :
    goes_to raw writable fence = writable.find? (names (before_fence raw fence.1)) := if_neg h

/-- The fallback writes block after block to the files they go to. -/
theorem parse_fenced_fallback_eq (raw : String) (writable : List String) :
    parse_fenced_fallback raw writable =
      (attributions raw writable).foldl (fun (out : Dict String String) found => out.set found.1 found.2) [] := by
  by_cases h : LoneBlock raw writable
  · obtain ⟨fence, hfences⟩ := List.length_eq_one_iff.1 h.1
    obtain ⟨path, hpath⟩ := List.length_eq_one_iff.1 h.2
    unfold parse_fenced_fallback attributions
    simp only [goes_to_lone h]
    rw [hfences, hpath]
    rfl
  unfold parse_fenced_fallback
  rw [attributions, List.foldl_filterMap]
  simp only [goes_to_named h]
  split
  · rename_i hfound
    exact absurd ⟨by rw [hfound]; rfl, rfl⟩ h
  · rename_i files found others hnot
    congr 1
    funext out fence
    cases files.find? (names (before_fence raw fence.1)) with
    | none => rfl
    | some path => rfl

/-- A file gets the last of the blocks that go to it. -/
theorem get?_fenced : (parse_fenced_fallback raw writable).get? path =
    ((attributions raw writable).reverse.find? fun found => found.1 == path).map (·.2) := by
  rw [parse_fenced_fallback_eq, Dict.get?_foldl_set (fun found : String × String => found.1) (fun found => found.2)]
  exact Option.or_none

theorem mem_attributions : (path, body) ∈ attributions raw writable ↔
    ∃ fence ∈ fences raw, goes_to raw writable fence = some path ∧ fence.2 = body := by
  rw [attributions, List.mem_filterMap]
  simp only [Option.map_eq_some_iff, Prod.mk.injEq]
  constructor
  · rintro ⟨fence, hfence, found, hfind, rfl, rfl⟩
    exact ⟨fence, hfence, hfind, rfl⟩
  · rintro ⟨fence, hfence, hfind, rfl⟩
    exact ⟨fence, hfence, path, hfind, rfl, rfl⟩

theorem mem_attributions_of_get? (hget : (parse_fenced_fallback raw writable).get? path = some body) :
    (path, body) ∈ attributions raw writable := by
  rw [get?_fenced, Option.map_eq_some_iff] at hget
  obtain ⟨found, hfind, rfl⟩ := hget
  have hkey := List.find?_some hfind
  obtain rfl : found.1 = path := beq_iff_eq.1 hkey
  exact List.mem_reverse.1 (List.mem_of_find?_eq_some hfind)

/-- A file some block goes to is in the result. -/
theorem get?_fenced_isSome (hfence : fence ∈ fences raw) (hgoes : goes_to raw writable fence = some path) :
    ((parse_fenced_fallback raw writable).get? path).isSome = true := by
  rw [get?_fenced, Option.isSome_map, List.find?_isSome]
  exact ⟨(path, fence.2), List.mem_reverse.2 (mem_attributions.2 ⟨fence, hfence, hgoes, rfl⟩), beq_self_eq_true path⟩

/-- Of entries that are the same if they pass, any order finds the same one. -/
theorem find?_perm {α : Type*} {p : α → Bool} {xs ys : List α} (hperm : ys.Perm xs)
    (hsame : ∀ x ∈ xs, ∀ y ∈ xs, p x = true → p y = true → x = y) : ys.find? p = xs.find? p := by
  cases hfind : xs.find? p with
  | none =>
    apply List.find?_eq_none.2
    exact fun y hy => List.find?_eq_none.1 hfind y (hperm.mem_iff.1 hy)
  | some x =>
    have hx := List.mem_of_find?_eq_some hfind
    cases hother : ys.find? p with
    | none => exact absurd (List.find?_some hfind) (List.find?_eq_none.1 hother x (hperm.mem_iff.2 hx))
    | some y =>
      have hy := hperm.mem_iff.1 (List.mem_of_find?_eq_some hother)
      rw [hsame y hy x hx (List.find?_some hother) (List.find?_some hfind)]

/-- Some order of a set begins with any element of it. -/
theorem perm_cons_of_mem {α : Type*} [DecidableEq α] {x : α} {xs : List α} (h : x ∈ xs) :
    (x :: xs.erase x).Perm xs := (List.perm_cons_erase h).symm

/-- A block goes to the file the set begins with, if that one is named before it. -/
theorem goes_to_first (hlone : ¬LoneBlock raw (path :: order)) (hnames : names (before_fence raw fence.1) path = true) :
    goes_to raw (path :: order) fence = some path := by
  rw [goes_to_named hlone]
  exact List.find?_cons_of_pos hnames

/-- A block goes to a writable file, the only one or one that is named before it. -/
theorem named_of_goes_to (hgoes : goes_to raw writable fence = some path) :
    path ∈ writable ∧ (LoneBlock raw writable ∨ names (before_fence raw fence.1) path = true) := by
  by_cases hlone : LoneBlock raw writable
  · rw [goes_to_lone hlone] at hgoes
    exact ⟨List.mem_of_head? hgoes, .inl hlone⟩
  · rw [goes_to_named hlone] at hgoes
    exact ⟨List.mem_of_find?_eq_some hgoes, .inr (List.find?_some hgoes)⟩

/-- Where no block has two files named before it, the order of the set does not show. -/
theorem parse_fenced_fallback_perm (h : LoneBlock raw writable ∨ Unambiguous raw writable) (hperm : order.Perm writable) :
    parse_fenced_fallback raw order = parse_fenced_fallback raw writable := by
  by_cases hlone : LoneBlock raw writable
  · obtain ⟨path, hpath⟩ := List.length_eq_one_iff.1 hlone.2
    rw [hpath] at hperm ⊢
    rw [List.perm_singleton.1 hperm]
  · rw [parse_fenced_fallback_eq, parse_fenced_fallback_eq, attributions, attributions]
    congr 1
    apply List.filterMap_congr
    intro fence hfence
    rw [goes_to_named hlone, goes_to_named (mt (LoneBlock.perm raw hperm).1 hlone),
      find?_perm hperm (h.resolve_left hlone fence hfence)]

/-- What is promised where the headings lead. -/
theorem HeadedApart.obeyed (h : HeadedApart raw writable) : HeadingsObeyed raw writable := by
  constructor
  case headed =>
    intro order hperm fence hfence path hgoes
    obtain ⟨hpath, hwhy⟩ := named_of_goes_to hgoes
    exact h.headed fence hfence path (hperm.mem_iff.1 hpath) (hwhy.imp_left (LoneBlock.perm raw hperm).1)
  case kept =>
    intro order hperm
    by_cases hlone : LoneBlock raw order
    · obtain ⟨fence, hfences⟩ := List.length_eq_one_iff.1 hlone.1
      rw [hfences]
      exact List.pairwise_singleton _ _
    · refine h.once.imp ?_
      intro fence other honce path hgoes hother
      obtain ⟨hpath, hwhy⟩ := named_of_goes_to hgoes
      obtain ⟨-, hwhy'⟩ := named_of_goes_to hother
      have hnot := honce path (hperm.mem_iff.1 hpath) (hwhy.resolve_left hlone)
      rw [hwhy'.resolve_left hlone] at hnot
      cases hnot
  case ordered =>
    intro order hperm path
    rw [parse_fenced_fallback_perm (or_iff_not_imp_left.2 h.apart) hperm]

/-- With a file first, every block before which it is named goes to it. -/
theorem HeadingsObeyed.named_once (h : HeadingsObeyed raw writable) : NamedOnce raw writable := by
  by_cases hlone : LoneBlock raw writable
  · obtain ⟨fence, hfences⟩ := List.length_eq_one_iff.1 hlone.1
    rw [NamedOnce, hfences]
    exact List.pairwise_singleton _ _
  · rw [NamedOnce, List.pairwise_iff_getElem]
    intro i j hi hj hij path hpath hnames
    by_contra hother
    have hperm := perm_cons_of_mem hpath
    have hfirst := mt (LoneBlock.perm raw hperm).1 hlone
    have hkept := List.pairwise_iff_getElem.1 (h.kept _ hperm) i j hi hj hij path (goes_to_first hfirst hnames)
    exact hkept (goes_to_first hfirst (by simpa using hother))

/-- With the one file first, a block goes to it; with the other first, the block goes there, and no other block brings
the first file into the result. -/
theorem HeadingsObeyed.unambiguous (h : HeadingsObeyed raw writable) (hlone : ¬LoneBlock raw writable) :
    Unambiguous raw writable := by
  intro fence hfence path hpath other hother hnames hnames'
  by_contra hne
  have hperm := perm_cons_of_mem hpath
  have hperm' := perm_cons_of_mem hother
  have hfirst := mt (LoneBlock.perm raw hperm).1 hlone
  have hfirst' := mt (LoneBlock.perm raw hperm').1 hlone
  have hsome := get?_fenced_isSome hfence (goes_to_first hfirst hnames)
  rw [h.ordered _ hperm path, ← h.ordered _ hperm' path, Option.isSome_iff_exists] at hsome
  obtain ⟨body, hbody⟩ := hsome
  obtain ⟨found, hfound, hgoes, -⟩ := mem_attributions.1 (mem_attributions_of_get? hbody)
  have hwhy := (named_of_goes_to hgoes).2.resolve_left hfirst'
  have hsame : found ≠ fence := by
    rintro rfl
    rw [goes_to_first hfirst' hnames'] at hgoes
    exact hne (Option.some.inj hgoes).symm
  -- `path` is named before two blocks, of which one comes first.
  obtain ⟨i, hi, hfi⟩ := List.getElem_of_mem hfence
  obtain ⟨j, hj, hfj⟩ := List.getElem_of_mem hfound
  have honce := List.pairwise_iff_getElem.1 h.named_once
  rcases lt_trichotomy i j with hlt | rfl | hlt
  · have hnot := honce i j hi hj hlt path hpath (hfi ▸ hnames)
    rw [hfj, hwhy] at hnot
    cases hnot
  · exact hsame (hfj.symm.trans hfi)
  · have hnot := honce j i hj hi hlt path hpath (hfj ▸ hwhy)
    rw [hfi, hnames] at hnot
    cases hnot

/-- A source file and its test file, each block under its own heading. -/
private def change_and_test : String :=
  "### src/a.py\n```python\nx = 1\n```\n\n**tests/test_a.py**\n```python\nassert True\n```\n"

end Blocks

end AgenticKb.AgentRunner

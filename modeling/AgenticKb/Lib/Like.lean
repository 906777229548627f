import AgenticKb.Lib.Text

namespace AgenticKb.Lib

/-! Patterns of SQL's `LIKE`. -/

inductive LikePart where
  | any_text
  | any_char
  | literal (c : Char)
deriving DecidableEq, Repr

/-- The parts of a pattern; `none` where it ends in the escape character, which is an error. -/
def like_parts (esc : Char) : List Char → Option (List LikePart)
  | [] => some []
  | c :: cs =>
    if c = esc then
      match cs with
      | [] => none
      | d :: ds => (like_parts esc ds).map (.literal d :: ·)
    else
      (like_parts esc cs).map ((if c = '%' then .any_text else if c = '_' then .any_char else .literal c) :: ·)

/-- A pattern covers the whole text. -/
def LikePart.cover : List LikePart → List Char → Bool
  | [], text => text.isEmpty
  | .literal c :: parts, text => text.head? == some c && cover parts text.tail
  | .any_char :: parts, text => !text.isEmpty && cover parts text.tail
  | .any_text :: parts, text => text.tails.any (cover parts)

/-- `text LIKE pattern ESCAPE esc`. -/
def like (esc : Char) (pattern text : List Char) : Option Bool :=
  (like_parts esc pattern).map fun parts => LikePart.cover parts text

/-- A text with a backslash before each character that means something in a pattern. -/
def escape_like (token : List Char) : List Char :=
  replace ['_'] ['\\', '_'] (replace ['%'] ['\\', '%'] (replace ['\\'] ['\\', '\\'] token))

section Escaping

variable {α : Type*} [DecidableEq α]

/-- To replace one element is to do so everywhere. -/
theorem replace_singleton (c : α) (new text : List α) :
    replace [c] new text = text.flatMap fun d => if d = c then new else [d] := by
  rw [replace]
  induction text with
  | nil => rfl
  | cons d text ih =>
    rw [replaceFrom, List.flatMap_cons]
    by_cases hc : d = c
    · rw [if_pos (by simp [hc, List.isPrefixOf]), if_pos hc, List.length_singleton, Nat.sub_self, ih]
    · rw [if_neg (by simpa [List.isPrefixOf] using Ne.symm hc), if_neg hc, ih, List.singleton_append]

/-- The characters with a meaning of their own. -/
def is_like_meta (c : Char) : Bool := c == '\\' || c == '%' || c == '_'

theorem escape_like_eq (token : List Char) :
    escape_like token = token.flatMap fun c => if is_like_meta c then ['\\', c] else [c] := by
  rw [escape_like, replace_singleton, replace_singleton, replace_singleton, List.flatMap_assoc, List.flatMap_assoc]
  congr 1
  funext c
  by_cases hback : c = '\\'
  · subst hback
    decide
  · by_cases hpercent : c = '%'
    · subst hpercent
      decide
    · by_cases hunder : c = '_'
      · subst hunder
        decide
      · have hplain : is_like_meta c = false := by simp [is_like_meta, hback, hpercent, hunder]
        rw [if_neg hback, hplain]
        simp [hpercent, hunder]

end Escaping

section Meaning

variable {token text : List Char} {parts : List LikePart}

theorem like_parts_escaped (esc d : Char) (rest : List Char) :
    like_parts esc (esc :: d :: rest) = (like_parts esc rest).map (.literal d :: ·) := by
  rw [like_parts.eq_def]
  dsimp only
  rw [if_pos rfl]

theorem like_parts_plain {esc c : Char} (h : c ≠ esc) (rest : List Char) :
    like_parts esc (c :: rest) = (like_parts esc rest).map
      ((if c = '%' then LikePart.any_text else if c = '_' then .any_char else .literal c) :: ·) := by
  rw [like_parts.eq_def]
  dsimp only
  rw [if_neg h]

/-- An escaped text is read as its characters. -/
theorem like_parts_escape (token rest : List Char) :
    like_parts '\\' (escape_like token ++ rest) = (like_parts '\\' rest).map (token.map .literal ++ ·) := by
  rw [escape_like_eq]
  induction token with
  | nil => simp
  | cons c token ih =>
    rw [List.flatMap_cons, List.append_assoc]
    by_cases hmeta : is_like_meta c = true
    · rw [if_pos hmeta, List.cons_append, List.cons_append, List.nil_append, like_parts_escaped, ih, Option.map_map]
      rfl
    · have hplain : c ≠ '\\' ∧ c ≠ '%' ∧ c ≠ '_' := by simpa [is_like_meta, and_assoc] using hmeta
      rw [if_neg hmeta, List.singleton_append, like_parts_plain hplain.1, if_neg hplain.2.1, if_neg hplain.2.2, ih,
        Option.map_map]
      rfl

/-- So is a text without such characters as it stands. -/
theorem escape_like_plain (h : ∀ c ∈ token, is_like_meta c = false) : escape_like token = token := by
  rw [escape_like_eq]
  induction token with
  | nil => rfl
  | cons c token ih =>
    have hc : is_like_meta c = false := h c List.mem_cons_self
    rw [List.flatMap_cons, hc, if_neg Bool.false_ne_true, ih fun d hd => h d (List.mem_cons_of_mem _ hd)]
    rfl

theorem cover_literals (token text : List Char) (parts : List LikePart) :
    LikePart.cover (token.map .literal ++ parts) text = true ↔
      ∃ rest, text = token ++ rest ∧ LikePart.cover parts rest = true := by
  induction token generalizing text with
  | nil => simp
  | cons c token ih =>
    rw [List.map_cons, List.cons_append, LikePart.cover, Bool.and_eq_true, ih]
    cases text with
    | nil => simp
    | cons d text =>
      have hhead : d = c ↔ c = d := eq_comm
      simp [hhead, and_assoc]

theorem cover_any_text (parts : List LikePart) (text : List Char) :
    LikePart.cover (.any_text :: parts) text = true ↔ ∃ lead rest, text = lead ++ rest ∧ LikePart.cover parts rest = true := by
  rw [LikePart.cover, List.any_eq_true]
  constructor
  · intro h
    obtain ⟨rest, hrest, hcover⟩ := h
    obtain ⟨lead, hlead⟩ := (List.mem_tails _ _).1 hrest
    exact ⟨lead, rest, hlead.symm, hcover⟩
  · intro h
    obtain ⟨lead, rest, rfl, hcover⟩ := h
    exact ⟨rest, (List.mem_tails _ _).2 (List.suffix_append _ _), hcover⟩

/-- A text between two percent signs is looked for anywhere. -/
theorem like_contains (token text : List Char) :
    like '\\' ('%' :: (escape_like token ++ ['%'])) text = some (decide (token <:+: text)) := by
  have hlast : like_parts '\\' ['%'] = some [.any_text] := by decide
  have hparts : like_parts '\\' ('%' :: (escape_like token ++ ['%'])) =
      some (.any_text :: (token.map .literal ++ [.any_text])) := by
    rw [like_parts_plain (by decide), if_pos rfl, like_parts_escape, hlast]
    rfl
  have hrest : ∀ rest : List Char, LikePart.cover [.any_text] rest = true := by
    intro rest
    rw [cover_any_text]
    exact ⟨rest, [], (List.append_nil rest).symm, rfl⟩
  rw [like, hparts, Option.map_some, Option.some_inj, Bool.eq_iff_iff, decide_eq_true_iff, cover_any_text]
  constructor
  · intro h
    obtain ⟨lead, rest, rfl, hcover⟩ := h
    obtain ⟨tail, rfl, -⟩ := (cover_literals _ _ _).1 hcover
    exact ⟨lead, tail, List.append_assoc _ _ _⟩
  · intro h
    obtain ⟨lead, tail, rfl⟩ := h
    exact ⟨lead, token ++ tail, List.append_assoc _ _ _, (cover_literals _ _ _).2 ⟨tail, rfl, hrest tail⟩⟩

end Meaning

end AgenticKb.Lib

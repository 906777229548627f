import Mathlib.Computability.Language

open Computability

namespace AgenticKb.Lib

/-! Regular expressions over character classes, as `re` matches them. -/

inductive Regex (α : Type*) where
  | none
  | empty
  /-- A character class. -/
  | one (class_of : α → Bool)
  | or (r s : Regex α)
  | seq (r s : Regex α)
  | star (r : Regex α)

namespace Regex

variable {α : Type*}

/-- The texts an expression matches as a whole. -/
def language : Regex α → Language α
  | none => 0
  | empty => 1
  | one class_of => {text | ∃ c, class_of c = true ∧ text = [c]}
  | or r s => r.language + s.language
  | seq r s => r.language * s.language
  | star r => r.language∗

def literal [DecidableEq α] (c : α) : Regex α := one (· == c)

/-- A class that is negated: `[^c]`. -/
def other_than [DecidableEq α] (c : α) : Regex α := one (· != c)

/-- `r+`. -/
def plus (r : Regex α) : Regex α := seq r (star r)

def concat (parts : List (Regex α)) : Regex α := parts.foldr seq empty

section Language

variable {r s : Regex α} {parts : List (Regex α)} {text rest : List α}

@[simp] theorem mem_empty : text ∈ (empty : Regex α).language ↔ text = [] := Language.mem_one text

theorem mem_one {class_of : α → Bool} : text ∈ (one class_of).language ↔ ∃ c, class_of c = true ∧ text = [c] := Iff.rfl

theorem mem_seq : text ∈ (seq r s).language ↔ ∃ before ∈ r.language, ∃ after ∈ s.language, before ++ after = text :=
  Language.mem_mul

theorem mem_star :
    text ∈ (star r).language ↔ ∃ parts : List (List α), text = parts.flatten ∧ ∀ part ∈ parts, part ∈ r.language :=
  Language.mem_kstar

@[simp] theorem mem_literal [DecidableEq α] {c : α} : text ∈ (literal c).language ↔ text = [c] := by
  simp [literal, mem_one]

@[simp] theorem mem_concat_nil : text ∈ (concat ([] : List (Regex α))).language ↔ text = [] := mem_empty

theorem mem_concat_cons :
    text ∈ (concat (r :: parts)).language ↔
      ∃ before ∈ r.language, ∃ after ∈ (concat parts).language, before ++ after = text := mem_seq

/-- A repetition of what matches the texts of some values matches the texts of lists of them. -/
theorem mem_star_of {β : Type*} {valid : β → Prop} {render : β → List α}
    (hr : ∀ text, text ∈ r.language ↔ ∃ x, valid x ∧ text = render x) :
    text ∈ (star r).language ↔ ∃ xs : List β, (∀ x ∈ xs, valid x) ∧ text = xs.flatMap render := by
  rw [mem_star]
  constructor
  · rintro ⟨parts, rfl, hparts⟩
    induction parts with
    | nil => exact ⟨[], by simp, rfl⟩
    | cons part parts ih =>
      rw [List.forall_mem_cons] at hparts
      obtain ⟨x, hx, rfl⟩ := (hr part).1 hparts.1
      obtain ⟨xs, hxs, hrest⟩ := ih hparts.2
      exact ⟨x :: xs, List.forall_mem_cons.2 ⟨hx, hxs⟩, by rw [List.flatten_cons, hrest, List.flatMap_cons]⟩
  · rintro ⟨xs, hxs, rfl⟩
    refine ⟨xs.map render, List.flatMap_def .., ?_⟩
    intro part hpart
    obtain ⟨x, hx, rfl⟩ := List.mem_map.1 hpart
    exact (hr _).2 ⟨x, hxs x hx, rfl⟩

/-- A repeated class matches the texts whose characters are all in it. -/
theorem mem_star_one {class_of : α → Bool} : text ∈ (star (one class_of)).language ↔ ∀ c ∈ text, class_of c = true := by
  rw [mem_star]
  constructor
  · rintro ⟨parts, rfl, hparts⟩ c hc
    obtain ⟨part, hpart, hin⟩ := List.mem_flatten.1 hc
    obtain ⟨d, hd, rfl⟩ := hparts part hpart
    rwa [List.mem_singleton.1 hin]
  · intro hall
    refine ⟨text.map fun c => [c], by simp [← List.flatMap_def], ?_⟩
    intro part hpart
    obtain ⟨c, hc, rfl⟩ := List.mem_map.1 hpart
    exact ⟨c, hall c hc, rfl⟩

theorem mem_plus_one {class_of : α → Bool} :
    text ∈ (plus (one class_of)).language ↔ text ≠ [] ∧ ∀ c ∈ text, class_of c = true := by
  rw [plus, mem_seq]
  constructor
  · rintro ⟨_, ⟨c, hc, rfl⟩, rest, hrest, rfl⟩
    refine ⟨List.cons_ne_nil _ _, ?_⟩
    rw [List.singleton_append, List.forall_mem_cons]
    exact ⟨hc, mem_star_one.1 hrest⟩
  · rintro ⟨hne, hall⟩
    obtain ⟨c, rest, rfl⟩ := List.exists_cons_of_ne_nil hne
    rw [List.forall_mem_cons] at hall
    exact ⟨[c], ⟨c, hall.1, rfl⟩, rest, mem_star_one.2 hall.2, rfl⟩

end Language

section Match

/-- Whether an expression matches the empty text. -/
def nullable : Regex α → Bool
  | none => false
  | empty => true
  | one _ => false
  | or r s => r.nullable || s.nullable
  | seq r s => r.nullable && s.nullable
  | star _ => true

/-- What is left to match behind one character. -/
def deriv (c : α) : Regex α → Regex α
  | none => none
  | empty => none
  | one class_of => if class_of c then empty else none
  | or r s => or (r.deriv c) (s.deriv c)
  | seq r s => if r.nullable then or (seq (r.deriv c) s) (s.deriv c) else seq (r.deriv c) s
  | star r => seq (r.deriv c) (star r)

/-- `re.match` of an expression with `\Z` behind it. -/
def accepts (r : Regex α) (text : List α) : Bool := (text.foldl (fun r c => r.deriv c) r).nullable

theorem nullable_iff (r : Regex α) : r.nullable = true ↔ [] ∈ r.language := by
  induction r with
  | none => exact iff_of_false Bool.false_ne_true id
  | empty => exact iff_of_true rfl rfl
  | one class_of => simp [nullable, mem_one]
  | or r s hr hs =>
    rw [nullable, Bool.or_eq_true, hr, hs]
    rfl
  | seq r s hr hs =>
    rw [nullable, Bool.and_eq_true, hr, hs, mem_seq]
    constructor
    · rintro ⟨hr, hs⟩
      exact ⟨[], hr, [], hs, rfl⟩
    · rintro ⟨before, hbefore, after, hafter, heq⟩
      obtain ⟨rfl, rfl⟩ := List.append_eq_nil_iff.1 heq
      exact ⟨hbefore, hafter⟩
  | star r hr => exact iff_of_true rfl (Language.nil_mem_kstar _)

/-- A repetition that begins with a character begins with a part that does. -/
theorem cons_mem_star {r : Regex α} {c : α} {text : List α} :
    c :: text ∈ (star r).language ↔ ∃ before, c :: before ∈ r.language ∧ ∃ after ∈ (star r).language, before ++ after = text := by
  constructor
  · intro h
    obtain ⟨parts, hparts, hall⟩ := Language.mem_kstar_iff_exists_nonempty.1 h
    cases parts with
    | nil => simp at hparts
    | cons part parts =>
      obtain ⟨hpart, hne⟩ := hall part List.mem_cons_self
      obtain ⟨d, before, rfl⟩ := List.exists_cons_of_ne_nil hne
      rw [List.flatten_cons, List.cons_append] at hparts
      obtain ⟨rfl, rfl⟩ := List.cons.inj hparts
      exact ⟨before, hpart, parts.flatten, ⟨parts, rfl, fun p hp => (hall p (List.mem_cons_of_mem _ hp)).1⟩, rfl⟩
  · rintro ⟨before, hbefore, after, ⟨parts, rfl, hall⟩, rfl⟩
    refine ⟨(c :: before) :: parts, rfl, ?_⟩
    rw [List.forall_mem_cons]
    exact ⟨hbefore, hall⟩

theorem deriv_iff (r : Regex α) (c : α) (text : List α) : text ∈ (r.deriv c).language ↔ c :: text ∈ r.language := by
  induction r generalizing text with
  | none => exact Iff.rfl
  | empty => exact iff_of_false id (List.cons_ne_nil c text)
  | one class_of =>
    rw [deriv, mem_one]
    split
    · rename_i hc
      rw [mem_empty]
      constructor
      · rintro rfl
        exact ⟨c, hc, rfl⟩
      · rintro ⟨d, -, heq⟩
        exact (List.cons.inj heq).2
    · rename_i hc
      refine iff_of_false id ?_
      rintro ⟨d, hd, heq⟩
      exact hc ((List.cons.inj heq).1 ▸ hd)
  | or r s hr hs => exact or_congr (hr text) (hs text)
  | seq r s hr hs =>
    have hstep : text ∈ (seq (r.deriv c) s).language ↔
        ∃ before, c :: before ∈ r.language ∧ ∃ after ∈ s.language, before ++ after = text := by
      simp only [mem_seq, hr]
    have hwhole : c :: text ∈ (seq r s).language ↔ text ∈ (seq (r.deriv c) s).language ∨
        ([] ∈ r.language ∧ c :: text ∈ s.language) := by
      rw [hstep, mem_seq]
      constructor
      · rintro ⟨before, hbefore, after, hafter, heq⟩
        cases before with
        | nil => exact .inr ⟨hbefore, heq ▸ hafter⟩
        | cons d before =>
          obtain ⟨rfl, rfl⟩ := List.cons.inj heq
          exact .inl ⟨before, hbefore, after, hafter, rfl⟩
      · rintro (⟨before, hbefore, after, hafter, rfl⟩ | ⟨hnil, hs⟩)
        · exact ⟨c :: before, hbefore, after, hafter, rfl⟩
        · exact ⟨[], hnil, c :: text, hs, rfl⟩
    rw [hwhole, deriv]
    split
    · rename_i hnullable
      rw [← hs, and_iff_right ((nullable_iff r).1 hnullable)]
      rfl
    · rename_i hnullable
      rw [nullable_iff] at hnullable
      simp [hnullable]
  | star r hr =>
    rw [deriv, mem_seq, cons_mem_star]
    simp only [hr]

theorem accepts_iff (r : Regex α) (text : List α) : r.accepts text = true ↔ text ∈ r.language := by
  induction text generalizing r with
  | nil => exact nullable_iff r
  | cons c text ih => rw [← deriv_iff, ← ih, accepts, accepts, List.foldl_cons]

end Match

end Regex

end AgenticKb.Lib

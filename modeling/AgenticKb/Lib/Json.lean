import Mathlib.Data.String.Basic
import Mathlib.Tactic.IntervalCases

namespace AgenticKb.Lib

/-! Compact JSON of values without numbers, as `json.dumps` writes it with `ensure_ascii=False` and no blanks. -/

inductive Json where
  | null
  | bool (value : Bool)
  | str (value : String)
  | arr (items : List Json)
  | obj (fields : List (String × Json))

/-- A truth value where there is one, and null where there is none. -/
def Json.option_bool : Option Bool → Json
  | none => .null
  | some value => .bool value

/-- A string where there is one, and null where there is none. -/
def Json.option_str : Option String → Json
  | none => .null
  | some value => .str value

section Strings

/-- One character inside a string. -/
def escape (c : Char) : List Char :=
  if c = '"' then ['\\', '"']
  else if c = '\\' then ['\\', '\\']
  else if c = '\n' then ['\\', 'n']
  else if c = '\r' then ['\\', 'r']
  else if c = '\t' then ['\\', 't']
  else if c = '\x0c' then ['\\', 'f']
  else if c = '\x08' then ['\\', 'b']
  else if c.toNat < 0x20 then ['\\', 'u', '0', '0', Nat.digitChar (c.toNat / 16), Nat.digitChar (c.toNat % 16)]
  else [c]

/-- The characters of a string up to its closing quote. -/
def dump_chars : List Char → List Char
  | [] => ['"']
  | c :: cs => escape c ++ dump_chars cs

def dump_str (s : String) : List Char := '"' :: dump_chars s.toList

private def digit_value (c : Char) : Nat := if c.toNat < 'a'.toNat then c.toNat - '0'.toNat else c.toNat - 'a'.toNat + 10

private theorem digit_value_digitChar {n : Nat} (h : n < 16) : digit_value (Nat.digitChar n) = n := by
  interval_cases n <;> rfl

/-- The character that an escape stands for, and what follows it; a quote that stands alone ends the string. -/
private def unescape : List Char → Option (Char × List Char)
  | '\\' :: 'u' :: '0' :: '0' :: a :: b :: rest => some (Char.ofNat (16 * digit_value a + digit_value b), rest)
  | '\\' :: 'n' :: rest => some ('\n', rest)
  | '\\' :: 'r' :: rest => some ('\r', rest)
  | '\\' :: 't' :: rest => some ('\t', rest)
  | '\\' :: 'f' :: rest => some ('\x0c', rest)
  | '\\' :: 'b' :: rest => some ('\x08', rest)
  | '\\' :: c :: rest => some (c, rest)
  | '"' :: _ => none
  | c :: rest => some (c, rest)
  | [] => none

private theorem unescape_escape (c : Char) (rest : List Char) : unescape (escape c ++ rest) = some (c, rest) := by
  unfold escape
  by_cases hquote : c = '"'
  · rw [if_pos hquote, hquote]; rfl
  by_cases hslash : c = '\\'
  · rw [if_neg hquote, if_pos hslash, hslash]; rfl
  by_cases hnewline : c = '\n'
  · rw [if_neg hquote, if_neg hslash, if_pos hnewline, hnewline]; rfl
  by_cases hreturn : c = '\r'
  · rw [if_neg hquote, if_neg hslash, if_neg hnewline, if_pos hreturn, hreturn]; rfl
  by_cases htab : c = '\t'
  · rw [if_neg hquote, if_neg hslash, if_neg hnewline, if_neg hreturn, if_pos htab, htab]; rfl
  by_cases hfeed : c = '\x0c'
  · rw [if_neg hquote, if_neg hslash, if_neg hnewline, if_neg hreturn, if_neg htab, if_pos hfeed, hfeed]; rfl
  by_cases hback : c = '\x08'
  · rw [if_neg hquote, if_neg hslash, if_neg hnewline, if_neg hreturn, if_neg htab, if_neg hfeed, if_pos hback,
      hback]
    rfl
  rw [if_neg hquote, if_neg hslash, if_neg hnewline, if_neg hreturn, if_neg htab, if_neg hfeed, if_neg hback]
  by_cases hcontrol : c.toNat < 0x20
  · rw [if_pos hcontrol]
    have hhigh : digit_value (Nat.digitChar (c.toNat / 16)) = c.toNat / 16 := digit_value_digitChar (by omega)
    have hlow : digit_value (Nat.digitChar (c.toNat % 16)) = c.toNat % 16 := digit_value_digitChar (by omega)
    have hvalue : 16 * digit_value (Nat.digitChar (c.toNat / 16)) + digit_value (Nat.digitChar (c.toNat % 16)) =
        c.toNat := by omega
    simp only [List.cons_append, List.nil_append, unescape, hvalue, Char.ofNat_toNat]
  · rw [if_neg hcontrol]
    simp [unescape, hslash]

/-- A string can be told from what follows its closing quote. -/
theorem dump_chars_inj {cs ds s t : List Char} (h : dump_chars cs ++ s = dump_chars ds ++ t) : cs = ds ∧ s = t := by
  have hopen : ∀ (c : Char) (rest s t : List Char), dump_chars (c :: rest) ++ s ≠ '"' :: t := by
    intro c rest s t heq
    have hread := congrArg unescape heq
    rw [dump_chars, List.append_assoc, unescape_escape] at hread
    simp [unescape] at hread
  induction cs generalizing ds with
  | nil =>
    cases ds with
    | nil => exact ⟨rfl, List.tail_eq_of_cons_eq h⟩
    | cons d ds => exact absurd h.symm (hopen d ds t s)
  | cons c cs ih =>
    cases ds with
    | nil => exact absurd h (hopen c cs s t)
    | cons d ds =>
      have hread := congrArg unescape h
      rw [dump_chars, dump_chars, List.append_assoc, List.append_assoc, unescape_escape, unescape_escape] at hread
      obtain ⟨rfl, hrest⟩ := Prod.mk.inj (Option.some.inj hread)
      obtain ⟨rfl, rfl⟩ := ih hrest
      exact ⟨rfl, rfl⟩

theorem dump_str_inj {a b : String} {s t : List Char} (h : dump_str a ++ s = dump_str b ++ t) : a = b ∧ s = t := by
  obtain ⟨hchars, hrest⟩ := dump_chars_inj (List.tail_eq_of_cons_eq h)
  exact ⟨String.toList_injective hchars, hrest⟩

end Strings

section Values

mutual

def dump : Json → List Char
  | .null => ['n', 'u', 'l', 'l']
  | .bool true => ['t', 'r', 'u', 'e']
  | .bool false => ['f', 'a', 'l', 's', 'e']
  | .str value => dump_str value
  | .arr [] => ['[', ']']
  | .arr (item :: items) => '[' :: (dump item ++ dump_items items)
  | .obj [] => ['\x7b', '\x7d']
  | .obj (field :: fields) => '\x7b' :: (dump_field field ++ dump_fields fields)

/-- The items of an array behind its first one. -/
def dump_items : List Json → List Char
  | [] => [']']
  | item :: items => ',' :: (dump item ++ dump_items items)

/-- The fields of an object behind its first one. -/
def dump_fields : List (String × Json) → List Char
  | [] => ['\x7d']
  | field :: fields => ',' :: (dump_field field ++ dump_fields fields)

def dump_field : String × Json → List Char
  | (key, value) => dump_str key ++ ':' :: dump value

end

/-- The first character of a value. -/
private def first_char : Json → Char
  | .null => 'n'
  | .bool true => 't'
  | .bool false => 'f'
  | .str _ => '"'
  | .arr _ => '['
  | .obj _ => '\x7b'

private theorem dump_eq_cons (j : Json) : ∃ rest, dump j = first_char j :: rest := by
  cases j with
  | null => exact ⟨_, rfl⟩
  | bool value => cases value <;> exact ⟨_, rfl⟩
  | str value => exact ⟨_, rfl⟩
  | arr items => cases items <;> exact ⟨_, rfl⟩
  | obj fields => cases fields <;> exact ⟨_, rfl⟩

private theorem first_char_eq {a b : Json} {s t : List Char} (h : dump a ++ s = dump b ++ t) :
    first_char a = first_char b := by
  obtain ⟨rest, ha⟩ := dump_eq_cons a
  obtain ⟨rest', hb⟩ := dump_eq_cons b
  rw [ha, hb] at h
  exact List.head_eq_of_cons_eq h

/-- No value begins like the end of an array, and no field like the end of an object. -/
private theorem dump_append_ne (j : Json) (s t : List Char) : dump j ++ s ≠ ']' :: t := by
  obtain ⟨rest, hj⟩ := dump_eq_cons j
  intro h
  rw [hj] at h
  have hfirst := List.head_eq_of_cons_eq h
  cases j with
  | bool value => cases value <;> simp [first_char] at hfirst
  | _ => simp [first_char] at hfirst

private theorem dump_field_append_ne (field : String × Json) (s t : List Char) : dump_field field ++ s ≠ '\x7d' :: t := by
  obtain ⟨key, value⟩ := field
  intro h
  simp [dump_field, dump_str] at h

mutual

/-- A value can be told from what follows it. -/
theorem dump_inj (a : Json) {b : Json} {s t : List Char} (h : dump a ++ s = dump b ++ t) : a = b ∧ s = t := by
  have hfirst := first_char_eq h
  cases a with
  | null =>
    cases b with
    | null => exact ⟨rfl, by simpa [dump] using h⟩
    | bool other => cases other <;> simp [first_char] at hfirst
    | _ => simp [first_char] at hfirst
  | bool value =>
    cases b with
    | bool other => cases value <;> cases other <;> simp [first_char, dump] at hfirst h ⊢ <;> exact h
    | _ => cases value <;> simp [first_char] at hfirst
  | str value =>
    cases b with
    | str other =>
      rw [dump, dump] at h
      obtain ⟨rfl, rfl⟩ := dump_str_inj h
      exact ⟨rfl, rfl⟩
    | bool other => cases other <;> simp [first_char] at hfirst
    | _ => simp [first_char] at hfirst
  | arr items =>
    cases b with
    | arr others =>
      cases items with
      | nil =>
        cases others with
        | nil => exact ⟨rfl, by simpa [dump] using h⟩
        | cons other others =>
          simp only [dump, List.cons_append, List.append_assoc, List.cons.injEq, true_and] at h
          exact absurd h.symm (dump_append_ne other _ _)
      | cons item items =>
        cases others with
        | nil =>
          simp only [dump, List.cons_append, List.append_assoc, List.cons.injEq, true_and] at h
          exact absurd h (dump_append_ne item _ _)
        | cons other others =>
          simp only [dump, List.cons_append, List.append_assoc, List.cons.injEq, true_and] at h
          obtain ⟨rfl, hrest⟩ := dump_inj item h
          obtain ⟨rfl, rfl⟩ := dump_items_inj items hrest
          exact ⟨rfl, rfl⟩
    | bool other => cases other <;> simp [first_char] at hfirst
    | _ => simp [first_char] at hfirst
  | obj fields =>
    cases b with
    | obj others =>
      cases fields with
      | nil =>
        cases others with
        | nil => exact ⟨rfl, by simpa [dump] using h⟩
        | cons other others =>
          simp only [dump, List.cons_append, List.append_assoc, List.cons.injEq, true_and] at h
          exact absurd h.symm (dump_field_append_ne other _ _)
      | cons field fields =>
        cases others with
        | nil =>
          simp only [dump, List.cons_append, List.append_assoc, List.cons.injEq, true_and] at h
          exact absurd h (dump_field_append_ne field _ _)
        | cons other others =>
          simp only [dump, List.cons_append, List.append_assoc, List.cons.injEq, true_and] at h
          obtain ⟨rfl, hrest⟩ := dump_field_inj field h
          obtain ⟨rfl, rfl⟩ := dump_fields_inj fields hrest
          exact ⟨rfl, rfl⟩
    | bool other => cases other <;> simp [first_char] at hfirst
    | _ => simp [first_char] at hfirst
termination_by structural a

theorem dump_items_inj (items : List Json) {others : List Json} {s t : List Char}
    (h : dump_items items ++ s = dump_items others ++ t) : items = others ∧ s = t := by
  cases items with
  | nil =>
    cases others with
    | nil => exact ⟨rfl, by simpa [dump_items] using h⟩
    | cons other others => simp [dump_items] at h
  | cons item items =>
    cases others with
    | nil => simp [dump_items] at h
    | cons other others =>
      simp only [dump_items, List.cons_append, List.append_assoc, List.cons.injEq, true_and] at h
      obtain ⟨rfl, hrest⟩ := dump_inj item h
      obtain ⟨rfl, rfl⟩ := dump_items_inj items hrest
      exact ⟨rfl, rfl⟩
termination_by structural items

theorem dump_fields_inj (fields : List (String × Json)) {others : List (String × Json)} {s t : List Char}
    (h : dump_fields fields ++ s = dump_fields others ++ t) : fields = others ∧ s = t := by
  cases fields with
  | nil =>
    cases others with
    | nil => exact ⟨rfl, by simpa [dump_fields] using h⟩
    | cons other others => simp [dump_fields] at h
  | cons field fields =>
    cases others with
    | nil => simp [dump_fields] at h
    | cons other others =>
      simp only [dump_fields, List.cons_append, List.append_assoc, List.cons.injEq, true_and] at h
      obtain ⟨rfl, hrest⟩ := dump_field_inj field h
      obtain ⟨rfl, rfl⟩ := dump_fields_inj fields hrest
      exact ⟨rfl, rfl⟩
termination_by structural fields

theorem dump_field_inj (field : String × Json) {other : String × Json} {s t : List Char}
    (h : dump_field field ++ s = dump_field other ++ t) : field = other ∧ s = t := by
  obtain ⟨key, value⟩ := field
  obtain ⟨key', value'⟩ := other
  simp only [dump_field, List.append_assoc, List.cons_append] at h
  obtain ⟨rfl, hrest⟩ := dump_str_inj h
  obtain ⟨rfl, rfl⟩ := dump_inj value (List.tail_eq_of_cons_eq hrest)
  exact ⟨rfl, rfl⟩
termination_by structural field

end

/-- `json.dumps`. -/
def json_dumps (j : Json) : String := String.ofList (dump j)

/-- Two values with one dump are equal. -/
theorem json_dumps_inj {a b : Json} (h : json_dumps a = json_dumps b) : a = b := by
  have hchars : dump a ++ [] = dump b ++ [] := by
    rw [List.append_nil, List.append_nil]
    exact String.ofList_injective h
  exact (dump_inj a hchars).1

end Values

end AgenticKb.Lib

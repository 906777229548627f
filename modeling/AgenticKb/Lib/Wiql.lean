import AgenticKb.Lib.Text

namespace AgenticKb.Lib

/-! The part of the work item query language that selects from a flat list: its texts, and what they mean. -/

namespace Wiql

inductive Keyword where
  | select | from_source | where_clause | and_also | order | by_field | under
deriving DecidableEq, Repr

inductive Token where
  | keyword (keyword : Keyword)
  | word (name : String)
  /-- `[name]`. -/
  | field (name : String)
  /-- `'text'`, where a doubled quote stands for one. -/
  | text (value : List Char)
  /-- `@name`. -/
  | variable_of (name : String)
  | equals
deriving DecidableEq, Repr

def KEYWORDS : List (String × Keyword) :=
  [("SELECT", .select), ("FROM", .from_source), ("WHERE", .where_clause), ("AND", .and_also), ("ORDER", .order),
    ("BY", .by_field), ("UNDER", .under)]

def Token.of_word (name : String) : Token := ((KEYWORDS.lookup name).map Token.keyword).getD (.word name)

/-- What a text is in the middle of. -/
inductive Mode where
  | between
  | word (read : List Char)
  | field (read : List Char)
  | text (read : List Char)
  /-- Behind a quote that ends a text, unless another one follows. -/
  | closing (read : List Char)
  | variable_of (read : List Char)
deriving DecidableEq, Repr

structure Lexer where
  tokens : List Token := []
  mode : Mode := .between
deriving DecidableEq, Repr

/-- The tokens that end with what has been read. -/
def Lexer.finish (s : Lexer) : Option (List Token) :=
  match s.mode with
  | .between => some s.tokens
  | .word read => some (s.tokens ++ [.of_word (String.ofList read)])
  | .variable_of read => some (s.tokens ++ [.variable_of (String.ofList read)])
  | .closing read => some (s.tokens ++ [.text read])
  | .field _ | .text _ => none

/-- A character between tokens. -/
def Lexer.start (tokens : List Token) (c : Char) : Option Lexer :=
  if c = ' ' then some ⟨tokens, .between⟩
  else if c = '[' then some ⟨tokens, .field []⟩
  else if c = '\'' then some ⟨tokens, .text []⟩
  else if c = '@' then some ⟨tokens, .variable_of []⟩
  else if c = '=' then some ⟨tokens ++ [.equals], .between⟩
  else if c.isAlpha then some ⟨tokens, .word [c]⟩
  else none

def Lexer.step (s : Lexer) (c : Char) : Option Lexer :=
  match s.mode with
  | .field read =>
    if c = ']' then some ⟨s.tokens ++ [.field (String.ofList read)], .between⟩
    else some ⟨s.tokens, .field (read ++ [c])⟩
  | .text read => if c = '\'' then some ⟨s.tokens, .closing read⟩ else some ⟨s.tokens, .text (read ++ [c])⟩
  | .closing read =>
    if c = '\'' then some ⟨s.tokens, .text (read ++ ['\''])⟩ else Lexer.start (s.tokens ++ [.text read]) c
  | .word read =>
    if c.isAlpha then some ⟨s.tokens, .word (read ++ [c])⟩
    else Lexer.start (s.tokens ++ [.of_word (String.ofList read)]) c
  | .variable_of read =>
    if c.isAlpha then some ⟨s.tokens, .variable_of (read ++ [c])⟩
    else Lexer.start (s.tokens ++ [.variable_of (String.ofList read)]) c
  | .between => Lexer.start s.tokens c

def lex (text : List Char) : Option (List Token) := (text.foldlM Lexer.step {}).bind Lexer.finish

inductive Operand where
  | text (value : String)
  | variable_of (name : String)
deriving DecidableEq, Repr

inductive Condition where
  | equals (field : String) (operand : Operand)
  | under (field : String) (path : String)
deriving DecidableEq, Repr

/-- Conditions that all have to hold, and a field to order by. -/
structure Query where
  select : String
  source : String
  conditions : List Condition
  order_by : String
deriving DecidableEq, Repr

/-- The conditions between `WHERE` and `ORDER`, and what comes behind them. -/
def parse_conditions : List Token → Option (List Condition × List Token)
  | .field name :: .equals :: .variable_of value :: rest => more (.equals name (.variable_of value)) rest
  | .field name :: .equals :: .text value :: rest => more (.equals name (.text (String.ofList value))) rest
  | .field name :: .keyword .under :: .text path :: rest => more (.under name (String.ofList path)) rest
  | _ => none
where
  /-- The conditions from one on that has been read. -/
  more (condition : Condition) : List Token → Option (List Condition × List Token)
    | .keyword .and_also :: rest => (parse_conditions rest).map fun (conditions, rest) => (condition :: conditions, rest)
    | rest => some ([condition], rest)

def parse_tokens : List Token → Option Query
  | .keyword .select :: .field select :: .keyword .from_source :: .word source :: .keyword .where_clause :: rest =>
    match parse_conditions rest with
    | some (conditions, [.keyword .order, .keyword .by_field, .field order_by]) =>
      some { select, source, conditions, order_by }
    | _ => none
  | _ => none

/-- A well-formed query. -/
def parse (text : String) : Option Query := (lex text.toList).bind parse_tokens

section Meaning

variable {α : Type*}

/-- What a service knows of its items: their fields, the values of its variables, and which paths lie under which. -/
structure Schema (α : Type*) where
  field : String → α → String
  variable_of : String → String
  under : (path root : String) → Bool

variable (schema : Schema α)

def Condition.holds (item : α) : Condition → Bool
  | .equals name (.text value) => schema.field name item == value
  | .equals name (.variable_of value) => schema.field name item == schema.variable_of value
  | .under name path => schema.under (schema.field name item) path

/-- A query means the items of which all its conditions hold. -/
def Query.means (query : Query) (item : α) : Bool := query.conditions.all (Condition.holds schema item)

end Meaning

section Runs

/-- What has been read before goes in front of what is read now. -/
theorem step_append (before tokens : List Token) (mode : Mode) (c : Char) :
    Lexer.step ⟨before ++ tokens, mode⟩ c =
      (Lexer.step ⟨tokens, mode⟩ c).map fun s => ⟨before ++ s.tokens, s.mode⟩ := by
  have hstart : ∀ tokens, Lexer.start (before ++ tokens) c =
      (Lexer.start tokens c).map fun s => ⟨before ++ s.tokens, s.mode⟩ := by
    intro tokens
    unfold Lexer.start
    split_ifs <;> simp
  unfold Lexer.step
  cases mode with
  | between => exact hstart tokens
  | word read =>
    dsimp only
    split
    · rfl
    · rw [List.append_assoc, hstart]
  | field read =>
    dsimp only
    split
    · rw [List.append_assoc]
      rfl
    · rfl
  | text read =>
    dsimp only
    split <;> rfl
  | closing read =>
    dsimp only
    split
    · rfl
    · rw [List.append_assoc, hstart]
  | variable_of read =>
    dsimp only
    split
    · rfl
    · rw [List.append_assoc, hstart]

theorem foldlM_append_tokens (before : List Token) (text : List Char) (s : Lexer) :
    text.foldlM Lexer.step ⟨before ++ s.tokens, s.mode⟩ =
      (text.foldlM Lexer.step s).map fun s => ⟨before ++ s.tokens, s.mode⟩ := by
  induction text generalizing s with
  | nil => rfl
  | cons c text ih =>
    rw [List.foldlM_cons, List.foldlM_cons, step_append]
    cases Lexer.step ⟨s.tokens, s.mode⟩ c with
    | none => rfl
    | some next => exact ih next

end Runs

section Quoting

/-- A text with its quotes doubled. -/
def quote (text : List Char) : List Char := replace ['\''] ['\'', '\''] text

/-- Inside a text, one with its quotes doubled is read as itself. -/
theorem foldlM_quote (tokens : List Token) (read text : List Char) :
    (quote text).foldlM Lexer.step ⟨tokens, .text read⟩ = some ⟨tokens, .text (read ++ text)⟩ := by
  rw [quote, replace]
  induction text generalizing read with
  | nil => simp [replaceFrom]
  | cons c text ih =>
    by_cases hquote : c = '\''
    · subst hquote
      have hread := ih (read ++ ['\''])
      rw [List.append_assoc] at hread
      simpa [replaceFrom, Lexer.step] using hread
    · have hread := ih (read ++ [c])
      rw [List.append_assoc] at hread
      simpa [replaceFrom, Lexer.step, hquote, Ne.symm hquote] using hread

end Quoting

end Wiql

end AgenticKb.Lib

import Mathlib.Data.List.Dedup
import AgenticKb.Lib.Python

open AgenticKb.Lib

namespace AgenticKb.ReviewPanel

inductive Severity where
  | blocker | major | minor | note
deriving DecidableEq, Repr

/-- Lower is more severe. -/
def SEVERITY_RANK : Severity → Nat
  | .blocker => 0
  | .major => 1
  | .minor => 2
  | .note => 3

def Severity.text : Severity → String
  | .blocker => "blocker"
  | .major => "major"
  | .minor => "minor"
  | .note => "note"

structure ReviewFinding where
  severity : Severity
  finding : String
  evidence_ids : List String
deriving DecidableEq, Repr

inductive Verdict where
  | approve | request_changes
deriving DecidableEq, Repr

structure ReviewFindingsV1 where
  verdict : Verdict
  findings : List ReviewFinding := []
  open_questions : List String := []
deriving DecidableEq, Repr

/-- One specialist lens's output. -/
structure PanelistReview where
  lens : String
  review : ReviewFindingsV1
deriving DecidableEq, Repr

structure MergedFinding where
  severity : Severity
  finding : String
  evidence_ids : List String
  lenses : List String
  disagreement : Option String := none
deriving DecidableEq, Repr

structure ReconciledReview where
  findings : List MergedFinding
  open_questions : List String
  lens_verdicts : Dict String Verdict
deriving DecidableEq, Repr

/-- `str.isalnum`, for one character. -/
def is_alnum (u : Unicode) (c : Char) : Bool := u.is_word c && c != '_'

/-- The distinct words of a text that have more than one letter. -/
def normalize_tokens (u : Unicode) (text : String) : List String :=
  let cleaned := String.ofList <| (u.lower text).toList.map fun c => if is_alnum u c || u.is_space c then c else ' '
  ((runs (fun c => !u.is_space c) cleaned).filter fun token => decide (1 < token.length)).dedup

/-- Two sets of words are those of duplicates if at least seven tenths of all are common. -/
def is_duplicate (a b : List String) : Bool :=
  !a.isEmpty && !b.isEmpty && decide (7 * (a ∪ b).length ≤ 10 * (a ∩ b).length)

/-- `min(xs, key=…)`: the first of the least elements. -/
def min_by {α : Type*} (key : α → Nat) (xs : List α) (h : xs ≠ []) : α :=
  xs.tail.foldl (fun best x => if key x < key best then x else best) (xs.head h)

theorem set_ne_nil {κ α : Type*} [DecidableEq κ] (d : Dict κ α) (k : κ) (v : α) : d.set k v ≠ [] := by
  unfold Dict.set
  split
  · rename_i hany
    cases d with
    | nil => simp at hany
    | cons entry d => simp
  · simp

/-- One merged finding under construction. -/
structure Group where
  tokens : List String
  severities : Dict String Severity
  texts : List (Severity × String)
  evidence : List String
  severities_ne : severities ≠ []
  texts_ne : texts ≠ []

namespace Group

variable (u : Unicode) (lens : String) (finding : ReviewFinding)

def new : Group where
  tokens := normalize_tokens u finding.finding
  severities := [(lens, finding.severity)]
  texts := [(finding.severity, finding.finding)]
  evidence := finding.evidence_ids.dedup
  severities_ne := by simp
  texts_ne := by simp

def absorb (group : Group) : Group where
  tokens := group.tokens ∪ normalize_tokens u finding.finding
  severities := group.severities.set lens finding.severity
  texts := group.texts ++ [(finding.severity, finding.finding)]
  evidence := group.evidence ∪ finding.evidence_ids.dedup
  severities_ne := set_ne_nil _ _ _
  texts_ne := by simp

/-- `lens=severity, …`. -/
def votes (group : Group) : String :=
  join ", " ((sorted (fun a b => str_le a.1 b.1) group.severities).map fun entry => entry.1 ++ "=" ++ entry.2.text)

def merged (group : Group) : MergedFinding where
  severity := (min_by (fun entry => SEVERITY_RANK entry.2) group.severities group.severities_ne).2
  finding := (min_by (fun pair => SEVERITY_RANK pair.1) group.texts group.texts_ne).2
  evidence_ids := sorted str_le group.evidence
  lenses := sorted str_le (group.severities.map (·.1))
  disagreement :=
    if 1 < (group.severities.map (·.2)).dedup.length then
      some ("severity disputed (" ++ group.votes ++ "); highest kept")
    else none

end Group

section Reconcile

variable (u : Unicode)

/-- A finding goes to the first group it is a duplicate of, or starts one. -/
def add_finding (lens : String) (finding : ReviewFinding) : List Group → List Group
  | [] => [.new u lens finding]
  | group :: groups =>
    if is_duplicate group.tokens (normalize_tokens u finding.finding) then group.absorb u lens finding :: groups
    else group :: add_finding lens finding groups

/-- The groups of a panel. -/
def groups (reviews : List PanelistReview) : List Group :=
  reviews.foldl (fun groups panelist =>
    panelist.review.findings.foldl (fun groups finding => add_finding u panelist.lens finding groups) groups) []

/-- Merge duplicate findings across lenses, keep disagreements explicit, rank by severity. -/
def reconcile (reviews : List PanelistReview) : ReconciledReview where
  findings := sorted (fun a b => decide (SEVERITY_RANK a.severity ≤ SEVERITY_RANK b.severity))
    ((groups u reviews).map Group.merged)
  open_questions := reviews.foldl (fun questions panelist =>
    panelist.review.open_questions.foldl (fun questions question =>
      if questions.contains question then questions else questions ++ [question]) questions) []
  lens_verdicts := sorted (fun a b => str_le a.1 b.1) <|
    reviews.foldl (fun (verdicts : Dict String Verdict) panelist => verdicts.set panelist.lens panelist.review.verdict) []

end Reconcile

section MinBy

variable {α : Type*} (key : α → Nat) {xs : List α} (h : xs ≠ [])

private theorem foldl_min_by (best : α) (xs : List α) :
    (xs.foldl (fun best x => if key x < key best then x else best) best = best ∨
      xs.foldl (fun best x => if key x < key best then x else best) best ∈ xs) ∧
    key (xs.foldl (fun best x => if key x < key best then x else best) best) ≤ key best ∧
      ∀ x ∈ xs, key (xs.foldl (fun best x => if key x < key best then x else best) best) ≤ key x := by
  induction xs generalizing best with
  | nil => simp
  | cons x xs ih =>
    rw [List.foldl_cons]
    by_cases hless : key x < key best
    · rw [if_pos hless]
      obtain ⟨hmem, hbest, hall⟩ := ih x
      refine ⟨.inr ?_, by omega, ?_⟩
      · cases hmem with
        | inl heq => rw [heq]; exact List.mem_cons_self
        | inr hmem => exact List.mem_cons_of_mem _ hmem
      · intro y hy
        cases List.mem_cons.1 hy with
        | inl heq => exact heq ▸ hbest
        | inr hy => exact hall y hy
    · rw [if_neg hless]
      obtain ⟨hmem, hbest, hall⟩ := ih best
      refine ⟨hmem.imp_right (List.mem_cons_of_mem _), hbest, ?_⟩
      intro y hy
      cases List.mem_cons.1 hy with
      | inl heq => rw [heq]; omega
      | inr hy => exact hall y hy

theorem min_by_mem : min_by key xs h ∈ xs := by
  obtain ⟨hmem, -, -⟩ := foldl_min_by key (xs.head h) xs.tail
  cases hmem with
  | inl heq => rw [min_by, heq]; exact List.head_mem h
  | inr hmem => exact List.mem_of_mem_tail hmem

theorem min_by_le {x : α} (hx : x ∈ xs) : key (min_by key xs h) ≤ key x := by
  obtain ⟨-, hhead, htail⟩ := foldl_min_by key (xs.head h) xs.tail
  rw [← List.cons_head_tail h] at hx
  cases List.mem_cons.1 hx with
  | inl heq => exact heq ▸ hhead
  | inr hx => exact htail x hx

end MinBy

end AgenticKb.ReviewPanel

import Mathlib.Algebra.Order.Ring.Rat
import AgenticKb.ContextBroker.Retrieval

open AgenticKb.Lib

namespace AgenticKb.ContextBroker

section References

/-- The backtick-quoted identifiers of a text, one-letter ones apart. -/
def references (text : Option String) : List String :=
  ((finditer symbol_reference 0 none (text.getD "").toList).map (·.1)).filter fun name => MIN_SYMBOL_LEN ≤ name.length

def document_references (row : ArtifactRow) : List String := references row.body_text ++ references row.title

/-- What stands behind the last dot of a dotted name. -/
def last_segment (name : String) : Option String := (rpartition name ".").map (·.2)

/-- A reference resolves by its full form or by its last segment. -/
def Resolves (current_symbols : List String) (name : String) : Prop :=
  name ∈ current_symbols ∨ ∃ segment ∈ last_segment name, segment ∈ current_symbols

/-- A reference resolves by its full form and, where that is long enough, by its last segment. -/
def ResolvesBothWays (current_symbols : List String) (name : String) : Prop :=
  name ∈ current_symbols ∧ ∀ segment ∈ last_segment name, MIN_SYMBOL_LEN ≤ segment.length → segment ∈ current_symbols

/-- A document is flagged if and only if it has a reference that resolves to nothing, and one without such references
weighs at least what it weighs under any other title and body. -/
structure StaleExactly (intent : Intent) (row : ArtifactRow) (current_symbols : List String) : Prop where
  flagged : is_stale_doc_for_intent (some intent) row current_symbols = true ↔
    ∃ name ∈ document_references row, ¬Resolves current_symbols name
  weighed : (∀ name ∈ document_references row, Resolves current_symbols name) → ∀ title body_text,
    (temporal_weight (some intent) current_symbols { row with title, body_text }).weight ≤
      (temporal_weight (some intent) current_symbols row).weight

end References

section Flag

variable {intent : Intent} {row : ArtifactRow} {current_symbols : List String} {text : Option String}

/-- What one reference is looked up by. -/
def lookups (name : String) : List String :=
  name :: (last_segment name).toList.filter fun segment => MIN_SYMBOL_LEN ≤ segment.length

theorem referenced_symbols_eq : referenced_symbols text = (references text).flatMap lookups := by
  rw [referenced_symbols, references]
  induction finditer symbol_reference 0 none (text.getD "").toList with
  | nil => rfl
  | cons pair found ih =>
    obtain ⟨name, whole⟩ := pair
    rw [List.flatMap_cons, ih, List.map_cons]
    dsimp only
    by_cases hshort : name.length < MIN_SYMBOL_LEN
    · rw [if_pos hshort, List.filter_cons_of_neg (by simpa using hshort), List.nil_append]
    · rw [if_neg hshort, List.filter_cons_of_pos (by simpa using hshort), List.flatMap_cons, lookups, last_segment]
      congr 1
      cases rpartition name "." with
      | none => rfl
      | some parts =>
        by_cases htail : parts.2.length < MIN_SYMBOL_LEN
        · simp [htail]
        · simp [htail, Nat.le_of_not_lt htail]

theorem resolvesBothWays_iff {name : String} :
    ResolvesBothWays current_symbols name ↔ ∀ ref ∈ lookups name, ref ∈ current_symbols := by
  rw [ResolvesBothWays, lookups, List.forall_mem_cons]
  apply and_congr_right'
  constructor
  · intro h ref href
    obtain ⟨hsegment, hlong⟩ := List.mem_filter.1 href
    exact h ref (Option.mem_toList.1 hsegment) (of_decide_eq_true hlong)
  · intro h segment hsegment hlong
    exact h segment (List.mem_filter.2 ⟨Option.mem_toList.2 hsegment, decide_eq_true hlong⟩)

theorem ResolvesBothWays.resolves {name : String} (h : ResolvesBothWays current_symbols name) :
    Resolves current_symbols name := .inl h.1

/-- A document is flagged unless each of its references resolves both ways. -/
theorem flagged_iff (hintent : intent ∈ STALENESS_INTENTS)
    (hdoc : derive_source_kind row.source_type row.artifact_type = .doc) :
    is_stale_doc_for_intent (some intent) row current_symbols = true ↔
      ∃ name ∈ document_references row, ¬ResolvesBothWays current_symbols name := by
  have hrefs : referenced_symbols row.body_text ++ referenced_symbols row.title =
      (document_references row).flatMap lookups := by
    rw [referenced_symbols_eq, referenced_symbols_eq, document_references, List.flatMap_append]
  have hsome : (some intent).any STALENESS_INTENTS.contains = true := List.contains_iff_mem.2 hintent
  rw [is_stale_doc_for_intent, hsome, hdoc, hrefs]
  simp only [Bool.true_and, beq_self_eq_true, List.any_flatMap, List.any_eq_true, Bool.not_eq_true',
    List.contains_eq_mem, decide_eq_false_iff_not, resolvesBothWays_iff, not_forall, exists_prop]

theorem INTENT_KIND_WEIGHT_nonneg (intent : Intent) (kind : SourceKind) : 0 ≤ INTENT_KIND_WEIGHT intent kind := by
  cases intent <;> cases kind <;> decide +kernel

/-- No title and no body lift a document above what it weighs unflagged. -/
theorem weight_le_unflagged (intent : Intent) (row : ArtifactRow) (title body_text : Option String) (stale : Bool) :
    (compute_weight (some intent) { row with title, body_text } stale).weight ≤
      (compute_weight (some intent) row false).weight := by
  have hstate : derive_state { row with title, body_text } = derive_state row := rfl
  rw [compute_weight, compute_weight, hstate]
  dsimp only
  have hbase : 0 ≤ ((some intent).map fun intent => INTENT_KIND_WEIGHT intent
      (derive_source_kind row.source_type row.artifact_type)).getD 1 *
        (if derive_state row = .superseded then SUPERSEDED_WEIGHT else 1) := by
    apply mul_nonneg (INTENT_KIND_WEIGHT_nonneg _ _)
    split <;> decide +kernel
  apply mul_le_mul_of_nonneg_left _ hbase
  cases stale <;> decide +kernel

/-- A document under an intent that asks for structure is flagged exactly for its unresolved references if and only if
it has one, or all its references resolve both ways. -/
theorem stale_exactly_iff (hintent : intent ∈ STALENESS_INTENTS)
    (hdoc : derive_source_kind row.source_type row.artifact_type = .doc) (current_symbols : List String) :
    StaleExactly intent row current_symbols ↔
      (∃ name ∈ document_references row, ¬Resolves current_symbols name) ∨
        ∀ name ∈ document_references row, ResolvesBothWays current_symbols name := by
  constructor
  · intro h
    by_cases hfresh : ∀ name ∈ document_references row, ResolvesBothWays current_symbols name
    · exact .inr hfresh
    · have hflag := (flagged_iff hintent hdoc).2 (by simpa using hfresh)
      exact .inl (h.flagged.1 hflag)
  · intro h
    have hflagged : is_stale_doc_for_intent (some intent) row current_symbols = true ↔
        ∃ name ∈ document_references row, ¬Resolves current_symbols name := by
      rw [flagged_iff hintent hdoc]
      constructor
      · rintro ⟨name, hname, hpart⟩
        cases h with
        | inl hmissing => exact hmissing
        | inr hall => exact absurd (hall name hname) hpart
      · rintro ⟨name, hname, hmissing⟩
        exact ⟨name, hname, fun hboth => hmissing hboth.resolves⟩
    refine ⟨hflagged, fun hall title body_text => ?_⟩
    have hfresh : is_stale_doc_for_intent (some intent) row current_symbols = false := by
      rw [Bool.eq_false_iff, Ne, hflagged]
      rintro ⟨name, hname, hmissing⟩
      exact hmissing (hall name hname)
    rw [temporal_weight, temporal_weight, hfresh]
    exact weight_le_unflagged intent row title body_text _

/-- A wiki page with a body. -/
private def page (body : String) : ArtifactRow where
  artifact_id := 1
  artifact_type := .chunk
  title := some "Helpers"
  body_text := some body
  knowledge_kind := none
  authority_score := none
  source_uri := "azuredevops://acme/kb/helpers"
  acl_teams := ["kb"]
  source_type := .azure_wiki
  invalidated_at_seq := none
  source_is_deleted := false
  centrality_score := none
  search_text := none

theorem removed_symbol_flagged : StaleExactly .how_does_x_work (page "See `helper` and `gone`.") ["helper"] := by
  apply (stale_exactly_iff (by decide) rfl ["helper"]).2
  refine .inl ⟨"gone", by decide +kernel, ?_⟩
  have hplain : last_segment "gone" = none := by decide +kernel
  rintro (hmem | ⟨segment, hsegment, -⟩)
  · exact absurd hmem (by decide)
  · rw [hplain] at hsegment
    cases hsegment

/-- A dotted name whose last segment is a current title is flagged for its full form. -/
theorem dotted_reference_flagged : ¬StaleExactly .how_does_x_work (page "See `pkg.util.helper`.") ["helper"] := by
  intro h
  obtain ⟨name, hname, hmissing⟩ := h.flagged.1 (by decide +kernel)
  have hall : ∀ name ∈ document_references (page "See `pkg.util.helper`."),
      ∃ segment ∈ last_segment name, segment ∈ ["helper"] := by decide +kernel
  exact hmissing (.inr (hall name hname))

end Flag

end AgenticKb.ContextBroker

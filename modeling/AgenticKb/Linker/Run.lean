import AgenticKb.Linker.CrossDomain
import AgenticKb.Linker.WriteEdges

open AgenticKb.Lib

namespace AgenticKb

def IMPLEMENTS_CONFIDENCE : Rat := 95 / 100
def DOC_LINK_CONFIDENCE : Rat := 90 / 100
def MIN_CONCEPT_TITLE_CHARS : Nat := 6
def MIN_SYMBOL_TITLE_CHARS : Nat := 4

/-- `pattern` is the compiled expression's `search`. -/
structure Matcher where
  artifact : LinkableArtifact
  needle : String
  pattern : String → Bool
  casefold_prefilter : Bool

section Patterns

variable (u : Unicode)

def eligible_concept_title (title : String) : Bool :=
  contains (strip u title) " " || MIN_CONCEPT_TITLE_CHARS ≤ title.length

/-- `(?<![\w.])NAME(?![\w])`. -/
def symbol_pattern (qualified_name text : String) : Bool :=
  search (· == ·) (fun prev _ next => !(prev.any fun c => u.is_word c || c == '.') && !next.any u.is_word)
    qualified_name.toList none text.toList

/-- `\bPHRASE\b`, ignoring case. -/
def phrase_pattern (phrase text : String) : Bool :=
  let boundary (a b : Option Char) := a.any u.is_word != b.any u.is_word
  search u.same_letter
    (fun prev found next =>
      boundary prev (found.head?.or next) && boundary (found.getLast?.or prev) next)
    phrase.toList none text.toList

/-- `(?<![\w/])TITLE(?![\w/])`. -/
def path_pattern (title text : String) : Bool :=
  let inside (c : Char) := u.is_word c || c == '/'
  search (· == ·) (fun prev _ next => !prev.any inside && !next.any inside) title.toList none text.toList

/-- The expression runs only where the raw needle occurs at all. -/
def matches_text (matcher : Matcher) (text text_lower : String) : Bool :=
  contains (if matcher.casefold_prefilter then text_lower else text) matcher.needle &&
    matcher.pattern text

def concept_matchers (artifacts : List LinkableArtifact) : List Matcher :=
  artifacts.filterMap fun a =>
    match a.title with
    | some title =>
      if a.artifact_type == .concept && eligible_concept_title u title then
        some ⟨a, u.lower title, phrase_pattern u title, true⟩
      else none
    | none => none

def symbol_matchers (artifacts : List LinkableArtifact) : List Matcher :=
  artifacts.filterMap fun a =>
    match a.title with
    | some title =>
      if a.artifact_type == .code_symbol && MIN_SYMBOL_TITLE_CHARS ≤ title.length then
        some ⟨a, title, symbol_pattern u title, false⟩
      else none
    | none => none

def code_matchers (artifacts : List LinkableArtifact) : List Matcher :=
  symbol_matchers u artifacts ++ artifacts.filterMap fun a =>
    match a.title with
    | some title =>
      if CODE_ARTIFACT_TYPES.contains a.artifact_type && a.artifact_type != .code_symbol then
        some ⟨a, title, path_pattern u title, false⟩
      else none
    | none => none

end Patterns

/-- The prose artifacts whose body is searched for titles. -/
def linkable_docs (artifacts : List LinkableArtifact) : List LinkableArtifact :=
  artifacts.filter fun a =>
    DOC_ARTIFACT_TYPES.contains a.artifact_type &&
      (DOC_SOURCE_TYPES ++ CARD_SOURCE_TYPES).contains a.source_type && a.body_text.isSome

/-- A draft of the title rules; they carry no evidence pointer. -/
def title_link (from_a to_a : LinkableArtifact) (edge_type : LinkerEdgeType) (confidence : Rat) :
    LinkEdgeDraft :=
  { from_artifact_id := from_a.artifact_id, to_artifact_id := to_a.artifact_id, edge_type, confidence
    strategy := .deterministic }

section Links

variable (u : Unicode) (artifacts : List LinkableArtifact)

/-- A symbol implements the concept whose title or body names it. -/
def concept_links : List LinkEdgeDraft :=
  (concept_matchers u artifacts).flatMap fun concept_matcher =>
    let concept := concept_matcher.artifact
    let concept_text := join "\n"
      ((concept.title.toList ++ concept.body_text.toList).filter fun part => part ≠ "")
    (symbol_matchers u artifacts).filterMap fun symbol_matcher =>
      if matches_text symbol_matcher concept_text (u.lower concept_text) then
        some (title_link symbol_matcher.artifact concept .implements IMPLEMENTS_CONFIDENCE)
      else none

/-- A document that names a concept documents or requests it, and mentions the code it names. -/
def doc_links : List LinkEdgeDraft :=
  (linkable_docs artifacts).flatMap fun doc =>
    let body := doc.body_text.getD ""
    let edge_type : LinkerEdgeType :=
      if CARD_SOURCE_TYPES.contains doc.source_type then .requests else .documents
    let links (matchers : List Matcher) (edge_type : LinkerEdgeType) :=
      matchers.filterMap fun matcher =>
        if matches_text matcher body (u.lower body) then
          some (title_link doc matcher.artifact edge_type DOC_LINK_CONFIDENCE)
        else none
    links (concept_matchers u artifacts) edge_type ++ links (code_matchers u artifacts) .mentions

/-- A cross-domain draft joins the set unless its link is there already. -/
def merge_link (drafts : List LinkEdgeDraft) (draft : LinkEdgeDraft) : List LinkEdgeDraft :=
  if drafts.any fun old => old.key == draft.key then drafts else drafts ++ [draft]

def find_deterministic_links : List LinkEdgeDraft :=
  let drafts := (concept_links u artifacts ++ doc_links u artifacts).foldl add_link []
  let cross_domain := find_cross_domain_links u artifacts ++
    find_doc_work_item_mentions u (linkable_docs artifacts) artifacts
  cross_domain.foldl merge_link drafts

end Links

example : symbol_pattern .ascii "get" "a.get, get()" = true := by decide +kernel

example : symbol_pattern .ascii "get" "a.get_all" = false := by decide +kernel

def SEMANTIC_ACCEPT_THRESHOLD : Rat := 82 / 100
def SEMANTIC_TOP_K : Nat := 3

/-- One scored symbol: rejected below the threshold, skipped when its pair is there already, and
otherwise drafted. A similarity above one fails the draft's validation. -/
def semantic_link (concept : LinkableArtifact)
    (state : List (Uuid × Uuid × EdgeType) × List LinkEdgeDraft) (candidate : ScoredArtifact) :
    Option (List (Uuid × Uuid × EdgeType) × List LinkEdgeDraft) :=
  let (existing_pairs, drafts) := state
  let draft : LinkEdgeDraft :=
    { from_artifact_id := candidate.artifact_id, to_artifact_id := concept.artifact_id
      edge_type := .implements, confidence := candidate.similarity, strategy := .semantic }
  if candidate.similarity < SEMANTIC_ACCEPT_THRESHOLD then some state
  else if existing_pairs.contains draft.key then some state
  else if 1 < candidate.similarity then none
  else some (existing_pairs ++ [draft.key], drafts ++ [draft])

/-- Proposed `implements` links for the concepts the deterministic pass left unlinked. -/
def find_semantic_links (provider : SimilarityProvider) (concepts : List LinkableArtifact)
    (existing_pairs : List (Uuid × Uuid × EdgeType)) : Option (List LinkEdgeDraft) :=
  (concepts.foldlM (fun state concept =>
    (provider concept.artifact_id SEMANTIC_TOP_K).foldlM (semantic_link concept) state)
    (existing_pairs, [])).map (·.2)

/-- The drafts of one linker run: the deterministic rules, then the semantic fallback for the
concepts they left unlinked. -/
def linker_drafts (p : Platform) (r : Registry) (similarity : Option SimilarityProvider) :
    Option (List LinkEdgeDraft) :=
  let artifacts := load_linkable_artifacts p r
  let drafts := find_deterministic_links p.unicode artifacts
  match similarity with
  | none => some drafts
  | some provider => do
    let linked_concept_ids :=
      (drafts.filter fun d => d.edge_type == .implements).map (·.to_artifact_id)
    let unlinked := artifacts.filter fun a =>
      a.artifact_type == .concept && !linked_concept_ids.contains a.artifact_id
    let semantic ← find_semantic_links provider unlinked (drafts.map (·.key))
    some (drafts ++ semantic)

/-- Compute and persist the linker's edges. With no provider the semantic pass is skipped, so that
the absence of its `implements` edges proves nothing. -/
def run_linker (p : Platform) (r : Registry) (kb_version : String) (valid_from_seq : Nat)
    (similarity : Option SimilarityProvider) : Option Registry := do
  let drafts ← linker_drafts p r similarity
  let protected_edge_types := if similarity.isNone then [EdgeType.implements] else []
  write_link_edges p r kb_version valid_from_seq drafts protected_edge_types

end AgenticKb

import AgenticKb.Domain.Drafts

open AgenticKb.Lib

namespace AgenticKb

def CONVENTIONAL_TYPES : List String :=
  ["build", "chore", "ci", "docs", "feat", "fix", "perf", "refactor", "revert", "style", "test"]

def STOPWORDS : List String :=
  ["a", "an", "the", "and", "or", "nor", "not", "no", "is", "are", "was", "were", "be", "been",
    "being", "am", "do", "does", "did", "done", "of", "in", "on", "at", "to", "for", "with", "from",
    "by", "as", "into", "onto", "over", "under", "after", "before", "against", "between", "during",
    "without", "within", "about", "above", "below", "out", "off", "up", "down", "again", "further",
    "it", "its", "this", "that", "these", "those", "there", "here", "so", "such", "both", "each",
    "few", "more", "most", "other", "some", "own", "same", "too", "very", "than", "then", "when",
    "where", "which", "who", "whom", "whose", "why", "how", "what", "while", "can", "could",
    "should", "would", "may", "might", "must", "will", "shall", "have", "has", "had", "having",
    "we", "our", "ours", "you", "your", "yours", "i", "he", "she", "they", "them", "their", "his",
    "her", "also", "just", "only", "ever", "never", "per", "via"]

def NGRAM_MIN : Nat := 2
def NGRAM_MAX : Nat := 4
def MIN_SLUG_TOKENS : Nat := 2
def MAX_BODY_TARGETS : Nat := 50

section Phrases

variable (u : Unicode)

/-- Lowercase ASCII alphanumeric tokens of at least two characters. -/
def tokenize (text : String) : List String :=
  (runs (fun c => c.isLower || c.isDigit) (u.lower text)).filter fun t => 2 ≤ t.length

/-- The canonical form of aliases and queries. -/
def normalize_phrase (text : String) : String :=
  join " " ((tokenize u text).filter fun t => !STOPWORDS.contains t)

/-- `phrase.split()`. -/
def split_words (text : String) : List String := runs (fun c => !u.is_space c) text

def phrase_variants (phrase : String) : List String :=
  let tokens := split_words u phrase
  if tokens.length < 2 then [] else [join "-" tokens, join "_" tokens]

/-- `search_text` of an alias row. -/
def alias_search_text (phrase : String) : String := join " " (phrase :: phrase_variants u phrase)

/-- Split a commit subject into the text of its scope and its description. -/
def parse_subject_label (subject : String) : Option String × String :=
  let no_label := (none, strip u subject)
  match subject.toList.dropWhile u.is_space with
  | [] => no_label
  | c :: cs =>
    if !c.isAlpha then no_label
    else
      let in_lead (c : Char) := u.is_word c || c == '.' || c == '/' || c == '-'
      let lead := c :: cs.takeWhile in_lead
      let (scope, rest) := match cs.dropWhile in_lead with
        | '(' :: tail =>
          let inner := tail.takeWhile (· != ')')
          if inner.length < tail.length then (some inner, tail.drop (inner.length + 1))
          else (none, '(' :: tail)
        | tail => (none, tail)
      let rest := if rest.head? == some '!' then rest.drop 1 else rest
      match rest with
      | ':' :: c :: cs =>
        let description := strip u (String.ofList (c :: cs))
        let named := match scope with
          | some (c :: cs) => some (String.ofList (c :: cs))
          | _ => none
        if CONVENTIONAL_TYPES.contains (u.lower (String.ofList lead)) then (named, description)
        else (named.or (some (String.ofList lead)), description)
      | _ => no_label

/-- The stopword-free runs of a description's tokens. -/
def token_runs : List String → List (List String)
  | [] => [[]]
  | token :: tokens =>
    match token_runs tokens with
    | [] => [[token]]
    | run :: rest => if STOPWORDS.contains token then [] :: run :: rest else (token :: run) :: rest

/-- The contiguous sublists of a run of `NGRAM_MIN` to `NGRAM_MAX` tokens. -/
def ngram_phrases (description : String) : List String :=
  ((token_runs (tokenize u description)).flatMap fun run =>
    run.tails.flatMap fun tail =>
      (List.range' NGRAM_MIN (NGRAM_MAX + 1 - NGRAM_MIN)).filterMap fun size =>
        if size ≤ tail.length then some (join " " (tail.take size)) else none).dedup

/-- The phrase a markdown file's name spells, if it has enough tokens. -/
def doc_slug_phrase (path : String) : Option String :=
  let filename := basename path
  if !endswith (u.lower filename) ".md" then none
  else
    let stem_tokens := tokenize u (take_chars filename (filename.length - ".md".length))
    let named := stem_tokens.dropWhile fun t => t.toList.all Char.isDigit || t == "pr" || t == "adr"
    let tokens := named.filter fun t => !STOPWORDS.contains t
    if tokens.length < MIN_SLUG_TOKENS then none else some (join " " tokens)

/-- One normalized phrase a source contributes, with its sorted targets. -/
structure MinedPhrase where
  phrase : String
  targets : List String
deriving DecidableEq, Repr

/-- `_merge`: add the targets of one phrase. -/
def merge_phrase (phrases : Dict String (List String)) (phrase : String) (targets : List String) :
    Dict String (List String) :=
  if phrase = "" then phrases else phrases.set phrase (((phrases.get? phrase).getD []) ∪ targets)

def mined_phrases (phrases : Dict String (List String)) : List MinedPhrase :=
  sorted (fun a b => str_le a.phrase b.phrase)
    (phrases.map fun (phrase, targets) => ⟨phrase, sorted str_le targets⟩)

/-- The scope and the n-grams of a commit's subject name its changed files; the name of a changed
document names that document. -/
def mine_commit (subject : String) (changed_files : List String) : List MinedPhrase :=
  let files := sorted str_le changed_files.dedup
  let (scope_text, description) := parse_subject_label u subject
  let phrases := if files.isEmpty then [] else
    let phrases := match scope_text with
      | some scope => merge_phrase [] (normalize_phrase u scope) files
      | none => []
    (ngram_phrases u description).foldl (fun phrases gram => merge_phrase phrases gram files) phrases
  mined_phrases <| (files.filter fun path => startswith path "docs/").foldl (fun phrases path =>
    match doc_slug_phrase u path with
    | some slug => merge_phrase phrases slug [path]
    | none => phrases) phrases

def mine_doc_source (path : String) : List MinedPhrase :=
  match doc_slug_phrase u path with
  | some slug => [⟨slug, [path]⟩]
  | none => []

end Phrases

/-- One source's mined output and the content hash it was mined at. -/
structure SourceContribution where
  source_key : String
  ref : String
  content_hash : String
  phrases : List MinedPhrase
deriving DecidableEq, Repr

def is_test_path (path : String) : Bool :=
  contains ("/" ++ path) "/tests/" || startswith (basename path) "test_"

def name_overlap (u : Unicode) (phrase path : String) : Nat :=
  ((tokenize u (basename path)).dedup.filter fun t => (split_words u phrase).contains t).length

structure RankedTarget where
  path : String
  count : Nat
deriving DecidableEq, Repr

/-- One piece of evidence: a source, its reference, the hash it was mined at, and the targets it
names. -/
structure ContributionEvidence where
  source_key : String
  ref : String
  content_hash : String
  targets : List String
deriving DecidableEq, Repr

/-- Tuple order. -/
def ContributionEvidence.le (a b : ContributionEvidence) : Bool :=
  ((((compare a.source_key b.source_key).then (compare a.ref b.ref)).then
    (compare a.content_hash b.content_hash)).then (compare a.targets b.targets)).isLE

/-- One desired alias row. -/
structure AliasAggregate where
  phrase : String
  confirmation_count : Nat
  targets : List RankedTarget
  evidence : List ContributionEvidence
deriving DecidableEq, Repr

/-- Most confirmed first, then non-test paths, then the larger overlap with the phrase, then the
path. -/
def ranked_before (u : Unicode) (phrase : String) (a b : String × Nat) : Bool :=
  ((((compare b.2 a.2).then (compare (is_test_path a.1) (is_test_path b.1))).then
    (compare (name_overlap u phrase b.1) (name_overlap u phrase a.1))).then
      (compare a.1 b.1)).isLE

/-- Fold the per-source contributions into one aggregate per phrase. -/
def aggregate_contributions (u : Unicode) (contributions : List SourceContribution) :
    List AliasAggregate :=
  let per_phrase := contributions.foldl (fun d contribution =>
    contribution.phrases.foldl (fun (d : Dict String (List ContributionEvidence)) mined =>
      d.append_to mined.phrase
        ⟨contribution.source_key, contribution.ref, contribution.content_hash, mined.targets⟩) d) []
  (sorted (fun a b => str_le a.1 b.1) per_phrase).map fun (phrase, entries) =>
    let counts := (entries.flatMap (·.targets)).foldl (fun (d : Dict String Nat) path =>
      d.set path (((d.get? path).getD 0) + 1)) []
    { phrase
      confirmation_count := entries.length
      targets := ((sorted (ranked_before u phrase) counts).take MAX_BODY_TARGETS).map fun (path, count) =>
        ⟨path, count⟩
      evidence := sorted ContributionEvidence.le entries }

end AgenticKb

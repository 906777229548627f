import AgenticKb.ContextBroker.Retrieval
import AgenticKb.Lib.Like
import Mathlib.Algebra.Order.Ring.Rat

open AgenticKb.Lib

namespace AgenticKb.ContextBroker

/-! The search backend over Postgres: `ILIKE` on each token of a query, weighted by where it hits and how rare it is. -/

def MAX_QUERY_TOKENS : Nat := 12

/-- What the backend takes from outside: how `ILIKE` folds a character, the weight
`math.log((total + 1) / (df + 1)) + 1.0`, and the float nearest to a score. -/
structure KeywordBackend where
  fold : Char → Char
  idf : (total df : Nat) → Rat
  float : Rat → Rat

/-- `list(dict.fromkeys(normalize_query(query).split()))`, capped. -/
def query_tokens (u : Unicode) (query : String) : List String :=
  (runs (fun c => !u.is_space c) (normalize_query u query)).eraseDups.take MAX_QUERY_TOKENS

/-- `%token%`, the token escaped. -/
def like_pattern (token : String) : List Char := '%' :: (escape_like token.toList ++ ['%'])

section Rows

variable (backend : KeywordBackend) (p : Platform)

/-- `text ILIKE pattern ESCAPE '\'`, which is never true of NULL. -/
def ilike (pattern : List Char) (text : Option String) : Bool :=
  text.any fun text => like '\\' (pattern.map backend.fold) (text.toList.map backend.fold) == some true

/-- Does a token hit any searchable field of the row? -/
def token_matches (a : KnowledgeArtifact) (token : String) : Bool :=
  ilike backend (like_pattern token) a.title || ilike backend (like_pattern token) a.search_text ||
    ilike backend (like_pattern token) (a.body_text.map p.body_string)

/-- The fields a token hits: the title counts for 4, the search text for 1.5, the body for 1. -/
def field_score (a : KnowledgeArtifact) (token : String) : Rat :=
  (if ilike backend (like_pattern token) a.title then 4 else 0) +
    (if ilike backend (like_pattern token) a.search_text then 3 / 2 else 0) +
    (if ilike backend (like_pattern token) (a.body_text.map p.body_string) then 1 else 0)

/-- The sum over the tokens, each scaled by its weight. -/
def row_score (weights : List (String × Rat)) (a : KnowledgeArtifact) : Rat :=
  (weights.map fun weight => weight.2 * field_score backend p a weight.1).sum

/-- `ORDER BY score DESC, artifact_id`. -/
def score_order (a b : KnowledgeArtifact × Rat) : Bool :=
  decide (b.2 < a.2) || a.2 == b.2 && decide (a.1.artifact_id ≤ b.1.artifact_id)

end Rows

section Search

variable (backend : KeywordBackend) (p : Platform) (db : Database) (build_seq : Nat)

/-- The artifacts that are members of the build. -/
def members : List KnowledgeArtifact := db.artifacts.filter fun a => decide (a.MemberAt build_seq)

/-- Each token with its weight: the rarer it is among the members, the heavier. -/
def token_weights (tokens : List String) : List (String × Rat) :=
  tokens.map fun token =>
    (token, backend.idf (members db build_seq).length
      ((members db build_seq).countP fun a => token_matches backend p a token))

/-- `PostgresKeywordSearchClient.search`. -/
def keyword_search (query : String) (top : Nat) : List SearchHit :=
  let tokens := query_tokens p.unicode query
  if tokens.isEmpty then []
  else if (members db build_seq).length = 0 then []
  else
    let weights := token_weights backend p db build_seq tokens
    let raw (a : KnowledgeArtifact) : Rat := (tokens.map fun token => field_score backend p a token).sum
    let scored := ((members db build_seq).filter fun a => decide (0 < raw a)).map fun a =>
      (a, row_score backend p weights a)
    ((sorted score_order scored).take top).map fun row =>
      { artifact_id := row.1.artifact_id, score := backend.float row.2 }

end Search

end AgenticKb.ContextBroker

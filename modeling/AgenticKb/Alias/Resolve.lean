import AgenticKb.Alias.Mining

open AgenticKb.Lib

namespace AgenticKb

def MIN_FUZZY_SCORE : Rat := 3 / 10

structure AliasEntry where
  alias_name : String
  targets : List String
  confirmation_count : Nat
deriving DecidableEq, Repr

/-- Token-set Jaccard overlap of a query and an alias; `none` where both are empty. -/
def overlap_score (query_tokens alias_tokens : List String) : Option Rat :=
  let union := query_tokens ∪ alias_tokens
  if union.isEmpty then none
  else some ((query_tokens.filter fun t => alias_tokens.contains t).length / (union.length : Rat))

/-- One entry of the fuzzy scan: the best entry so far, by score, confirmation count and name. -/
def better_entry (u : Unicode) (query_tokens : List String) (best : Option (Rat × AliasEntry))
    (entry : AliasEntry) : Option (Rat × AliasEntry) :=
  match overlap_score query_tokens (split_words u entry.alias_name).dedup with
  | none => best
  | some score =>
    if score < MIN_FUZZY_SCORE then best
    else match best with
      | none => some (score, entry)
      | some (best_score, best_entry) =>
        if best_score < score || (best_score == score &&
            (best_entry.confirmation_count < entry.confirmation_count ||
              (best_entry.confirmation_count == entry.confirmation_count &&
                !str_le best_entry.alias_name entry.alias_name))) then some (score, entry)
        else best

inductive MatchKind where
  | exact | fuzzy
deriving DecidableEq, Repr

structure Resolution where
  alias_name : String
  score : Rat
  matched : MatchKind
  targets : List String
deriving DecidableEq, Repr

/-- All that `resolve` answers: an exact normalized match, or else the best fuzzy one above the floor. -/
def resolution (u : Unicode) (query : String) (entries : List AliasEntry) : Option Resolution :=
  let normalized := normalize_phrase u query
  if normalized = "" then none
  else match entries.find? fun entry => entry.alias_name == normalized with
    | some entry => some ⟨entry.alias_name, 1, .exact, entry.targets⟩
    | none => (entries.foldl (better_entry u (split_words u normalized).dedup) none).map fun best =>
      ⟨best.2.alias_name, best.1, .fuzzy, best.2.targets⟩

/-- The targets of the alias a query resolves to. -/
def resolve (u : Unicode) (query : String) (entries : List AliasEntry) : Option (List String) :=
  (resolution u query entries).map (·.targets)

end AgenticKb

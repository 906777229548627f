import AgenticKb.ContextBroker.Temporal
import AgenticKb.Lib.Run

open AgenticKb.Lib

namespace AgenticKb.ContextBroker

/-- `normalize_query`: the runs of letters and digits in lower case, a space between them. -/
def normalize_query (u : Unicode) (query : String) : String :=
  join " " (runs (fun c => c.isLower || c.isDigit) (u.lower query))

/-- The titles of the code artifacts that are members of a build and whose source is not deleted. -/
def fetch_current_symbol_titles (db : Database) (build_seq : Nat) : List String :=
  ((member_artifacts db build_seq).filter fun entry =>
    [ArtifactType.code_symbol, .code_file, .endpoint].contains entry.1.artifact_type &&
      !entry.2.is_deleted).filterMap fun entry => entry.1.title.filter (· != "")

def SEARCH_OVERSAMPLE : Nat := 4
def CENTRALITY_BETA : Rat := 1 / 4

/-- The order of the candidates. -/
structure RankKey where
  source_backed : Nat
  authority : Rat
  relevance : Rat
  artifact_id : String
deriving DecidableEq, Repr

/-- Tuples compare by their first difference. -/
def RankKey.le (a b : RankKey) : Bool :=
  decide (a.source_backed < b.source_backed) || a.source_backed == b.source_backed &&
    (decide (a.authority < b.authority) || a.authority == b.authority &&
      (decide (a.relevance < b.relevance) || a.relevance == b.relevance && str_le a.artifact_id b.artifact_id))

section Rank

variable (deps : BrokerDeps)

def rank_key (scores : Dict Uuid Rat) (weight : Rat) (row : ArtifactRow) : RankKey :=
  { source_backed := if row.knowledge_kind = some .source_backed then 1 else 0
    authority := row.authority_score.getD 0
    relevance := (scores.get? row.artifact_id).getD 0 * weight * (1 + CENTRALITY_BETA * row.centrality_score.getD 0)
    artifact_id := deps.platform.str_uuid row.artifact_id }

/-- What an agent sees of a candidate, to compare it with the others. -/
def dedupe_text (row : ArtifactRow) : String :=
  normalize_query deps.platform.unicode <|
    nonempty_or row.title (deps.platform.str_uuid row.artifact_id) ++ " " ++
      card_summary deps.platform.unicode (row.body_text.getD "")

/-- Drop what a better ranked candidate already shows. -/
def collapse_near_duplicates (ranked : List ArtifactRow) : List ArtifactRow :=
  ranked.foldl (fun kept candidate =>
    if kept.any fun keeper => decide (deps.settings.semantic_dupe_threshold ≤
      deps.similarity (dedupe_text deps candidate) (dedupe_text deps keeper)) then kept
    else kept ++ [candidate]) []

/-- `SearchClient.search`, wider than the card cap. -/
def search_hits (db : Database) (query : String) (build_seq : Nat) : List SearchHit :=
  deps.search db query build_seq (deps.settings.max_cards_per_retrieval * SEARCH_OVERSAMPLE)

/-- The temporal weight of a candidate. -/
def temporal_weight (intent : Option Intent) (current_symbols : List String) (row : ArtifactRow) : TemporalWeight :=
  compute_weight intent row (is_stale_doc_for_intent intent row current_symbols)

/-- The search scores by artifact. -/
def hit_scores (hits : List SearchHit) : Dict Uuid Rat :=
  hits.foldl (fun d hit => d.set hit.artifact_id hit.score) []

/-- Everything between hydration and the cards: the ACL, the ranking, the near duplicates and the cap. -/
def ranked_rows (requester : Requester) (intent : Option Intent) (hits : List SearchHit)
    (artifacts : List ArtifactRow) (current_symbols : List String) : List ArtifactRow :=
  let key (row : ArtifactRow) := rank_key deps (hit_scores hits) (temporal_weight intent current_symbols row).weight row
  let ranked_all := sorted (fun a b => (key b).le (key a)) (filter_artifacts requester artifacts)
  (collapse_near_duplicates deps ranked_all).take deps.settings.max_cards_per_retrieval

/-- The cards of a retrieval. -/
def ranked_cards (requester : Requester) (intent : Option Intent) (hits : List SearchHit)
    (artifacts : List ArtifactRow) (current_symbols : List String) : List EvidenceCard :=
  (ranked_rows deps requester intent hits artifacts current_symbols).map fun row =>
    build_card deps row (some (temporal_weight intent current_symbols row))

/-- `retrieve_cards` with nothing else going on. -/
def retrieve_cards (db : Database) (query : String) (build_seq : Nat) (requester : Requester)
    (intent : Option Intent) : List EvidenceCard :=
  let hits := search_hits deps db query build_seq
  let artifacts := fetch_artifacts deps.platform db ((hit_scores hits).map (·.1)) build_seq
  let current_symbols := if intent.isSome then fetch_current_symbol_titles db build_seq else []
  ranked_cards deps requester intent hits artifacts current_symbols

end Rank

theorem mem_collapse_near_duplicates {deps : BrokerDeps} {ranked : List ArtifactRow} {row : ArtifactRow}
    (h : row ∈ collapse_near_duplicates deps ranked) : row ∈ ranked := by
  have hkept : ∀ kept ∈ collapse_near_duplicates deps ranked, kept ∈ ranked := by
    unfold collapse_near_duplicates
    apply foldl_invariant (I := fun kept => ∀ row ∈ kept, row ∈ ranked)
    · intro kept candidate hcandidate hkept row hrow
      split at hrow
      · exact hkept row hrow
      · cases List.mem_append.1 hrow with
        | inl hold => exact hkept row hold
        | inr hnew => exact List.mem_singleton.1 hnew ▸ hcandidate
    · simp
  exact hkept row h

/-- A card of a retrieval stands for a candidate the requester may see. -/
theorem mem_ranked_rows {deps : BrokerDeps} {requester : Requester} {intent : Option Intent} {hits : List SearchHit}
    {artifacts : List ArtifactRow} {current_symbols : List String} {row : ArtifactRow}
    (h : row ∈ ranked_rows deps requester intent hits artifacts current_symbols) :
    row ∈ filter_artifacts requester artifacts := by
  exact mem_sorted.1 (mem_collapse_near_duplicates (List.mem_of_mem_take h))

end AgenticKb.ContextBroker

import Mathlib.Data.List.Pairwise
import Mathlib.Data.Prod.Lex
import AgenticKb.Lib.Ranking
import AgenticKb.Properties.GraphReads
import AgenticKb.ContextBroker.Retrieval

open AgenticKb.Lib

namespace AgenticKb.ContextBroker

/-- A key as a tuple; an earlier component outweighs all later ones. -/
def RankKey.order (key : RankKey) : Nat ×ₗ Rat ×ₗ Rat ×ₗ List Char :=
  toLex (key.source_backed, toLex (key.authority, toLex (key.relevance, key.artifact_id.toList)))

theorem RankKey.le_iff {a b : RankKey} : a.le b = true ↔ a.order ≤ b.order := by
  unfold RankKey.le RankKey.order str_le
  simp only [Prod.Lex.toLex_le_toLex, Bool.or_eq_true, Bool.and_eq_true, decide_eq_true_eq, beq_iff_eq]

section Ranked

variable (deps : BrokerDeps) (requester : Requester) (intent : Option Intent) (hits : List SearchHit)
  (artifacts : List ArtifactRow) (current_symbols : List String)

/-- Provenance, authority, weighted relevance and id of a candidate. -/
def candidate_key (row : ArtifactRow) : RankKey :=
  rank_key deps (hit_scores hits) (temporal_weight intent current_symbols row).weight row

/-- A candidate shows what a better one shows. -/
def near_duplicate (candidate keeper : ArtifactRow) : Bool :=
  decide (deps.settings.semantic_dupe_threshold ≤ deps.similarity (dedupe_text deps candidate) (dedupe_text deps keeper))

/-- The candidates, best first. -/
def ranked_all : List ArtifactRow :=
  sorted (fun a b => (candidate_key deps intent hits current_symbols b).le (candidate_key deps intent hits current_symbols a))
    (filter_artifacts requester artifacts)

theorem ranked_rows_eq : ranked_rows deps requester intent hits artifacts current_symbols =
    (keep_apart (near_duplicate deps) (ranked_all deps requester intent hits artifacts current_symbols)).take
      deps.settings.max_cards_per_retrieval := rfl

/-- An exact ranking: admitted candidates only, strictly best first and none a near duplicate of a better one; whoever is
missing shows what a better one on the list shows, or ranks below all of a full list. -/
structure RankedExact (rows : List ArtifactRow) : Prop where
  admitted : ∀ row ∈ rows, row ∈ artifacts ∧ acl_admits requester.teams row.acl_teams = true
  decreasing : rows.Pairwise fun better worse =>
    (candidate_key deps intent hits current_symbols worse).order < (candidate_key deps intent hits current_symbols better).order
  apart : rows.Pairwise fun better worse =>
    deps.similarity (dedupe_text deps worse) (dedupe_text deps better) < deps.settings.semantic_dupe_threshold
  apart_either_way : (∀ a b, deps.similarity a b = deps.similarity b a) → ∀ x ∈ rows, ∀ y ∈ rows, x ≠ y →
    deps.similarity (dedupe_text deps x) (dedupe_text deps y) < deps.settings.semantic_dupe_threshold
  capped : rows.length ≤ deps.settings.max_cards_per_retrieval
  missing : ∀ row ∈ artifacts, acl_admits requester.teams row.acl_teams = true → row ∉ rows →
    (∃ better ∈ rows, (candidate_key deps intent hits current_symbols row).order <
        (candidate_key deps intent hits current_symbols better).order ∧
      deps.settings.semantic_dupe_threshold ≤ deps.similarity (dedupe_text deps row) (dedupe_text deps better)) ∨
    rows.length = deps.settings.max_cards_per_retrieval ∧ ∀ better ∈ rows,
      (candidate_key deps intent hits current_symbols row).order <
        (candidate_key deps intent hits current_symbols better).order

variable {deps requester intent hits artifacts current_symbols}

/-- Candidates are told apart by their ids. -/
theorem nodup_candidate_keys (hstr : deps.platform.str_uuid.Injective) (hrows : (artifacts.map (·.artifact_id)).Nodup) :
    ((filter_artifacts requester artifacts).map fun row =>
      OrderDual.toDual (candidate_key deps intent hits current_symbols row).order).Nodup := by
  have hids : (((filter_artifacts requester artifacts).map fun row =>
      OrderDual.toDual (candidate_key deps intent hits current_symbols row).order).map fun key =>
        String.ofList (ofLex (ofLex (ofLex (OrderDual.ofDual key)).2).2).2).Nodup := by
    rw [List.map_map]
    have heq : (filter_artifacts requester artifacts).map ((fun key : (Nat ×ₗ Rat ×ₗ Rat ×ₗ List Char)ᵒᵈ =>
        String.ofList (ofLex (ofLex (ofLex (OrderDual.ofDual key)).2).2).2) ∘ fun row =>
          OrderDual.toDual (candidate_key deps intent hits current_symbols row).order) =
        ((filter_artifacts requester artifacts).map (·.artifact_id)).map deps.platform.str_uuid := by
      rw [List.map_map]
      refine List.map_congr_left fun row _ => ?_
      exact String.ofList_toList
    rw [heq]
    exact ((List.filter_sublist.map _).nodup hrows).map hstr
  exact hids.of_map _

theorem key_le_iff (a b : ArtifactRow) :
    (candidate_key deps intent hits current_symbols b).le (candidate_key deps intent hits current_symbols a) = true ↔
      OrderDual.toDual (candidate_key deps intent hits current_symbols a).order ≤
        OrderDual.toDual (candidate_key deps intent hits current_symbols b).order :=
  RankKey.le_iff

variable (deps requester intent hits artifacts current_symbols) in
theorem ranked_all_decreasing (hstr : deps.platform.str_uuid.Injective) (hrows : (artifacts.map (·.artifact_id)).Nodup) :
    (ranked_all deps requester intent hits artifacts current_symbols).Pairwise fun better worse =>
      OrderDual.toDual (candidate_key deps intent hits current_symbols better).order <
        OrderDual.toDual (candidate_key deps intent hits current_symbols worse).order :=
  pairwise_lt_sorted (fun a b => key_le_iff a b) (nodup_candidate_keys hstr hrows)

theorem mem_ranked_all {row : ArtifactRow} : row ∈ ranked_all deps requester intent hits artifacts current_symbols ↔
    row ∈ artifacts ∧ acl_admits requester.teams row.acl_teams = true := by
  rw [ranked_all, mem_sorted, mem_filter_artifacts]

theorem rankedExact_ranked_rows (hstr : deps.platform.str_uuid.Injective)
    (hrows : (artifacts.map (·.artifact_id)).Nodup) :
    RankedExact deps requester intent hits artifacts current_symbols
      (ranked_rows deps requester intent hits artifacts current_symbols) := by
  have hranked := ranked_all_decreasing deps requester intent hits artifacts current_symbols hstr hrows
  have hmem : ∀ row, row ∈ ranked_all deps requester intent hits artifacts current_symbols ↔
      row ∈ artifacts ∧ acl_admits requester.teams row.acl_teams = true := fun row => mem_ranked_all
  rw [ranked_rows_eq]
  generalize ranked_all deps requester intent hits artifacts current_symbols = ranked at hranked hmem
  have hkept := keep_apart_sublist (near_duplicate deps) ranked
  have hcut := List.take_sublist deps.settings.max_cards_per_retrieval (keep_apart (near_duplicate deps) ranked)
  have hapart : ((keep_apart (near_duplicate deps) ranked).take deps.settings.max_cards_per_retrieval).Pairwise
      fun better worse =>
        deps.similarity (dedupe_text deps worse) (dedupe_text deps better) < deps.settings.semantic_dupe_threshold := by
    refine ((keep_apart_pairwise (near_duplicate deps) ranked).sublist hcut).imp fun hapart => ?_
    exact not_le.1 (of_decide_eq_false hapart)
  constructor
  case admitted => exact fun row hrow => (hmem row).1 (hkept.mem (hcut.mem hrow))
  case decreasing => exact hranked.sublist (hcut.trans hkept)
  case apart => exact hapart
  case apart_either_way =>
    intro hsymm x hx y hy hne
    have hboth : ((keep_apart (near_duplicate deps) ranked).take deps.settings.max_cards_per_retrieval).Pairwise
        fun x y => deps.similarity (dedupe_text deps x) (dedupe_text deps y) < deps.settings.semantic_dupe_threshold :=
      hapart.imp fun h => hsymm _ _ ▸ h
    have : Std.Symm fun x y =>
        deps.similarity (dedupe_text deps x) (dedupe_text deps y) < deps.settings.semantic_dupe_threshold :=
      ⟨fun x y h => hsymm _ _ ▸ h⟩
    exact hboth.forall hx hy hne
  case capped => exact List.length_take_le _ _
  case missing =>
    intro row hrow hadmits hmissing
    -- whoever is kept but not returned is cut off by the cap
    have hcapped : ∀ x ∈ keep_apart (near_duplicate deps) ranked,
        x ∉ (keep_apart (near_duplicate deps) ranked).take deps.settings.max_cards_per_retrieval →
          ((keep_apart (near_duplicate deps) ranked).take deps.settings.max_cards_per_retrieval).length =
              deps.settings.max_cards_per_retrieval ∧
            ∀ better ∈ (keep_apart (near_duplicate deps) ranked).take deps.settings.max_cards_per_retrieval,
              (candidate_key deps intent hits current_symbols x).order <
                (candidate_key deps intent hits current_symbols better).order :=
      fun x hx hdropped => take_best (hranked.sublist hkept) hx hdropped
    by_cases hkeep : row ∈ keep_apart (near_duplicate deps) ranked
    · exact .inr (hcapped row hkeep hmissing)
    · obtain ⟨keeper, hkeeper, hbetter, hsimilar⟩ :=
        keep_apart_maximal (near_duplicate deps) hranked ((hmem row).2 ⟨hrow, hadmits⟩) hkeep
      by_cases hreturned : keeper ∈
          (keep_apart (near_duplicate deps) ranked).take deps.settings.max_cards_per_retrieval
      · exact .inl ⟨keeper, hreturned, hbetter, of_decide_eq_true hsimilar⟩
      · obtain ⟨hfull, habove⟩ := hcapped keeper hkeeper hreturned
        refine .inr ⟨hfull, fun better hmem => ?_⟩
        have hkeeper_lt := habove better hmem
        exact lt_trans hbetter hkeeper_lt

/-- The scores do not depend on the order of the hits, as long as each artifact has one score. -/
theorem get?_hit_scores {hits' : List SearchHit} (hscores : ∀ a ∈ hits, ∀ b ∈ hits, a.artifact_id = b.artifact_id → a = b)
    (hhits : ∀ hit, hit ∈ hits ↔ hit ∈ hits') (id : Uuid) :
    (hit_scores hits).get? id = (hit_scores hits').get? id := by
  have hfind : ∀ hits : List SearchHit, (hit_scores hits).get? id =
      (hits.reverse.find? fun hit => hit.artifact_id == id).map (·.score) := by
    intro hits
    rw [hit_scores, Dict.get?_foldl_set (fun hit : SearchHit => hit.artifact_id) fun hit => hit.score]
    exact Option.or_none
  rw [hfind, hfind]
  congr 1
  cases hfound : hits.reverse.find? fun hit => hit.artifact_id == id with
  | none =>
    rw [List.find?_eq_none] at hfound
    symm
    rw [List.find?_eq_none]
    intro hit hhit
    exact hfound hit (List.mem_reverse.2 ((hhits hit).2 (List.mem_reverse.1 hhit)))
  | some hit =>
    have hhit := List.mem_reverse.1 (List.mem_of_find?_eq_some hfound)
    have hid := List.find?_some hfound
    cases hfound' : hits'.reverse.find? fun hit => hit.artifact_id == id with
    | none =>
      rw [List.find?_eq_none] at hfound'
      exact absurd hid (hfound' hit (List.mem_reverse.2 ((hhits hit).1 hhit)))
    | some hit' =>
      have hhit' := (hhits hit').2 (List.mem_reverse.1 (List.mem_of_find?_eq_some hfound'))
      have hid' := List.find?_some hfound'
      rw [hscores hit hhit hit' hhit' ((beq_iff_eq.1 hid).trans (beq_iff_eq.1 hid').symm)]

theorem ranked_rows_congr (hstr : deps.platform.str_uuid.Injective) (hrows : (artifacts.map (·.artifact_id)).Nodup)
    (hscores : ∀ a ∈ hits, ∀ b ∈ hits, a.artifact_id = b.artifact_id → a = b) {hits' : List SearchHit}
    {artifacts' : List ArtifactRow} (hhits : ∀ hit, hit ∈ hits ↔ hit ∈ hits') (hperm : artifacts.Perm artifacts') :
    ranked_rows deps requester intent hits artifacts current_symbols =
      ranked_rows deps requester intent hits' artifacts' current_symbols := by
  have hkey : candidate_key deps intent hits current_symbols = candidate_key deps intent hits' current_symbols := by
    funext row
    unfold candidate_key rank_key
    rw [get?_hit_scores hscores hhits]
  rw [ranked_rows_eq, ranked_rows_eq, ranked_all, ranked_all, ← hkey]
  congr 2
  exact sorted_congr (fun a b => key_le_iff a b) (nodup_candidate_keys hstr hrows) (hperm.filter _)

end Ranked

end AgenticKb.ContextBroker

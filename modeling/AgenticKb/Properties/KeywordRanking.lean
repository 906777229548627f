import Mathlib.Algebra.Order.BigOperators.Group.List
import Mathlib.Tactic.Linarith
import Mathlib.Tactic.Positivity
import AgenticKb.ContextBroker.KeywordSearch
import AgenticKb.Properties.NoOracle
import AgenticKb.Properties.RankedCards

open AgenticKb.Lib

namespace AgenticKb.ContextBroker

/-- `ILIKE` leaves lowercase letters, digits, blanks and the percent sign alone. -/
def KeywordBackend.FoldsPlain (backend : KeywordBackend) : Prop :=
  ∀ c : Char, (c.isLower || c.isDigit || c == ' ' || c == '%') = true → backend.fold c = c

section Tokens

variable {u : Unicode} {query token : String}

/-- Every character of words put together is one of theirs or a blank. -/
theorem plain_join_runs (text : String) :
    ∀ c ∈ (join " " (runs (fun c => c.isLower || c.isDigit) text)).toList, (c.isLower || c.isDigit || c == ' ') = true := by
  have hwords : ∀ word ∈ runs (fun c => c.isLower || c.isDigit) text, ∀ c ∈ word.toList, (c.isLower || c.isDigit) = true :=
    fun word hword => (mem_runs hword).2
  rw [join, String.toList_intercalate]
  generalize runs (fun c => c.isLower || c.isDigit) text = words at hwords
  induction words with
  | nil => simp
  | cons word words ih =>
    rw [List.forall_mem_cons] at hwords
    have hplain : ∀ c ∈ word.toList, (c.isLower || c.isDigit || c == ' ') = true := by
      intro c hc
      rw [hwords.1 c hc, Bool.true_or]
    cases words with
    | nil => simpa using hplain
    | cons next words =>
      rw [List.map_cons, List.map_cons, List.intercalate_cons_cons, List.forall_mem_append, List.forall_mem_append]
      exact ⟨⟨hplain, List.all_eq_true.1 (by decide)⟩, ih hwords.2⟩

theorem plain_query_token (h : token ∈ query_tokens u query) :
    ∀ c ∈ token.toList, (c.isLower || c.isDigit || c == ' ') = true := by
  intro c hc
  have hrun : token ∈ runs (fun c => !u.is_space c) (normalize_query u query) :=
    List.mem_eraseDups.1 (List.mem_of_mem_take h)
  exact plain_join_runs _ c (run_subset hrun hc)

theorem length_query_tokens (u : Unicode) (query : String) : (query_tokens u query).length ≤ MAX_QUERY_TOKENS :=
  List.length_take_le _ _

end Tokens

section Rows

variable {backend : KeywordBackend} {p : Platform} {u : Unicode} {query token : String}

/-- A text, if there is one, contains the token once its characters are folded. -/
def Shows (backend : KeywordBackend) (token : String) (text : Option String) : Prop :=
  ∃ s, text = some s ∧ token.toList <:+: s.toList.map backend.fold

/-- A row mentions a token in its title, its search text or its body. -/
def Mentions (backend : KeywordBackend) (p : Platform) (a : KnowledgeArtifact) (token : String) : Prop :=
  Shows backend token a.title ∨ Shows backend token a.search_text ∨ Shows backend token (a.body_text.map p.body_string)

/-- The pattern of a query's token looks for that token, and for nothing else. -/
theorem ilike_iff_shows (hfold : backend.FoldsPlain) (h : token ∈ query_tokens u query) (text : Option String) :
    ilike backend (like_pattern token) text = true ↔ Shows backend token text := by
  have hplain := plain_query_token h
  have hmeta : ∀ c ∈ token.toList, is_like_meta c = false := by
    intro c hc
    cases hmark : is_like_meta c with
    | false => rfl
    | true =>
      have hlike : c = '\\' ∨ c = '%' ∨ c = '_' := by simpa [is_like_meta, or_assoc] using hmark
      have hletter := hplain c hc
      rcases hlike with rfl | rfl | rfl
      · exact absurd hletter (by decide)
      · exact absurd hletter (by decide)
      · exact absurd hletter (by decide)
  have hkeep : ∀ c ∈ token.toList, backend.fold c = c := fun c hc => hfold c (by rw [hplain c hc, Bool.true_or])
  have hpattern : (like_pattern token).map backend.fold = '%' :: (escape_like token.toList ++ ['%']) := by
    rw [like_pattern, escape_like_plain hmeta, List.map_cons, List.map_append, List.map_congr_left hkeep,
      List.map_id', List.map_singleton, hfold '%' (by decide)]
  rw [ilike, Option.any_eq_true, Shows]
  constructor
  · intro hany
    obtain ⟨s, hs, hlike⟩ := hany
    rw [hpattern, like_contains, beq_iff_eq, Option.some_inj, decide_eq_true_iff] at hlike
    exact ⟨s, hs, hlike⟩
  · intro hshows
    obtain ⟨s, hs, hin⟩ := hshows
    refine ⟨s, hs, ?_⟩
    rw [hpattern, like_contains, beq_iff_eq, Option.some_inj, decide_eq_true_iff]
    exact hin

variable (backend p) in
theorem field_score_nonneg (a : KnowledgeArtifact) (token : String) : 0 ≤ field_score backend p a token := by
  unfold field_score
  positivity

theorem field_score_pos_iff (hfold : backend.FoldsPlain) (h : token ∈ query_tokens u query) (a : KnowledgeArtifact) :
    0 < field_score backend p a token ↔ Mentions backend p a token := by
  rw [Mentions, ← ilike_iff_shows hfold h, ← ilike_iff_shows hfold h, ← ilike_iff_shows hfold h, field_score]
  by_cases htitle : ilike backend (like_pattern token) a.title = true
  · rw [if_pos htitle]
    exact iff_of_true (by positivity) (.inl htitle)
  by_cases hsearch : ilike backend (like_pattern token) a.search_text = true
  · rw [if_pos hsearch]
    exact iff_of_true (by positivity) (.inr (.inl hsearch))
  by_cases hbody : ilike backend (like_pattern token) (a.body_text.map p.body_string) = true
  · rw [if_pos hbody]
    exact iff_of_true (by positivity) (.inr (.inr hbody))
  · simp [htitle, hsearch, hbody]

theorem sum_pos_iff {tokens : List String} {f : String → Rat} (hf : ∀ token ∈ tokens, 0 ≤ f token) :
    0 < (tokens.map f).sum ↔ ∃ token ∈ tokens, 0 < f token := by
  induction tokens with
  | nil => simp
  | cons token tokens ih =>
    rw [List.forall_mem_cons] at hf
    have hrest : 0 ≤ (tokens.map f).sum := List.sum_nonneg fun x hx => by
      obtain ⟨other, hother, rfl⟩ := List.mem_map.1 hx
      exact hf.2 other hother
    have hcons : (∃ other ∈ token :: tokens, 0 < f other) ↔ 0 < f token ∨ ∃ other ∈ tokens, 0 < f other := by simp
    rw [List.map_cons, List.sum_cons, hcons, ← ih hf.2]
    constructor
    · intro hsum
      by_cases hfirst : 0 < f token
      · exact .inl hfirst
      · exact .inr (by linarith [not_lt.1 hfirst])
    · intro hsome
      cases hsome with
      | inl hfirst => exact add_pos_of_pos_of_nonneg hfirst hrest
      | inr hlater => exact add_pos_of_nonneg_of_pos hf.1 hlater

/-- A row that shows whatever another one shows, and where, scores no less. -/
theorem row_score_mono {weights : List (String × Rat)} {a b : KnowledgeArtifact} (hweights : ∀ weight ∈ weights, 0 ≤ weight.2)
    (hfold : backend.FoldsPlain) (htokens : ∀ weight ∈ weights, weight.1 ∈ query_tokens u query)
    (hmore : ∀ weight ∈ weights,
      (Shows backend weight.1 b.title → Shows backend weight.1 a.title) ∧
        (Shows backend weight.1 b.search_text → Shows backend weight.1 a.search_text) ∧
          (Shows backend weight.1 (b.body_text.map p.body_string) → Shows backend weight.1 (a.body_text.map p.body_string))) :
    row_score backend p weights b ≤ row_score backend p weights a := by
  rw [row_score, row_score]
  apply List.sum_le_sum
  intro weight hweight
  apply mul_le_mul_of_nonneg_left _ (hweights weight hweight)
  obtain ⟨htitle, hsearch, hbody⟩ := hmore weight hweight
  rw [← ilike_iff_shows hfold (htokens weight hweight), ← ilike_iff_shows hfold (htokens weight hweight)] at htitle
  rw [← ilike_iff_shows hfold (htokens weight hweight), ← ilike_iff_shows hfold (htokens weight hweight)] at hsearch
  rw [← ilike_iff_shows hfold (htokens weight hweight), ← ilike_iff_shows hfold (htokens weight hweight)] at hbody
  have hkeep : ∀ {x : Rat} {shown_b shown_a : Bool}, 0 ≤ x → (shown_b = true → shown_a = true) →
      (if shown_b = true then x else 0) ≤ if shown_a = true then x else 0 := by
    intro x shown_b shown_a hx himp
    cases shown_b with
    | false =>
      cases shown_a with
      | false => exact le_refl _
      | true => simpa using hx
    | true => rw [if_pos rfl, if_pos (himp rfl)]
  unfold field_score
  exact add_le_add (add_le_add (hkeep (by positivity) htitle) (hkeep (by positivity) hsearch)) (hkeep (by positivity) hbody)

end Rows

section Search

variable {backend : KeywordBackend} {p : Platform} {db db' : Database} {build_seq top : Nat} {query : String}

/-- The higher score first, then the lower id. -/
def score_key (row : KnowledgeArtifact × Rat) : Ratᵒᵈ ×ₗ Uuid := toLex (OrderDual.toDual row.2, row.1.artifact_id)

theorem score_order_iff (a b : KnowledgeArtifact × Rat) : score_order a b = true ↔ score_key a ≤ score_key b := by
  unfold score_order score_key
  simp only [Prod.Lex.toLex_le_toLex, Bool.or_eq_true, Bool.and_eq_true, decide_eq_true_eq, beq_iff_eq,
    OrderDual.toDual_lt_toDual, EmbeddingLike.apply_eq_iff_eq]

/-- The row guard of the query: some token hits some field. -/
def searched (backend : KeywordBackend) (p : Platform) (query : String) (a : KnowledgeArtifact) : Bool :=
  decide (0 < ((query_tokens p.unicode query).map fun token => field_score backend p a token).sum)

theorem searched_iff (hfold : backend.FoldsPlain) (a : KnowledgeArtifact) :
    searched backend p query a = true ↔ ∃ token ∈ query_tokens p.unicode query, Mentions backend p a token := by
  unfold searched
  rw [decide_eq_true_iff, sum_pos_iff fun token _ => field_score_nonneg backend p a token]
  constructor
  · intro h
    obtain ⟨token, htoken, hpos⟩ := h
    exact ⟨token, htoken, (field_score_pos_iff hfold htoken a).1 hpos⟩
  · intro h
    obtain ⟨token, htoken, hmention⟩ := h
    exact ⟨token, htoken, (field_score_pos_iff hfold htoken a).2 hmention⟩

/-- The members that mention a token of the query, each with its score. -/
def scored_rows (backend : KeywordBackend) (p : Platform) (db : Database) (build_seq : Nat) (query : String) :
    List (KnowledgeArtifact × Rat) :=
  ((members db build_seq).filter (searched backend p query)).map fun a =>
    (a, row_score backend p (token_weights backend p db build_seq (query_tokens p.unicode query)) a)

def search_hit (backend : KeywordBackend) (row : KnowledgeArtifact × Rat) : SearchHit :=
  { artifact_id := row.1.artifact_id, score := backend.float row.2 }

theorem keyword_search_eq : keyword_search backend p db build_seq query top =
    ((sorted score_order (scored_rows backend p db build_seq query)).take top).map (search_hit backend) := by
  unfold keyword_search
  dsimp only
  by_cases htokens : (query_tokens p.unicode query).isEmpty = true
  · have hnone : ∀ a, searched backend p query a = false := by
      intro a
      rw [searched, List.isEmpty_iff.1 htokens]
      exact decide_eq_false (lt_irrefl 0)
    rw [if_pos htokens, scored_rows, List.filter_eq_nil_iff.2 fun a _ => by rw [hnone a]; exact Bool.false_ne_true]
    simp [sorted]
  · rw [if_neg htokens]
    by_cases hmembers : (members db build_seq).length = 0
    · rw [if_pos hmembers, scored_rows, List.length_eq_zero_iff.1 hmembers]
      simp [sorted]
    · rw [if_neg hmembers]
      rfl

theorem mem_members {a : KnowledgeArtifact} : a ∈ members db build_seq ↔ a ∈ db.artifacts ∧ a.MemberAt build_seq := by
  rw [members, List.mem_filter, decide_eq_true_iff]

theorem mem_scored_rows (hfold : backend.FoldsPlain) {row : KnowledgeArtifact × Rat} :
    row ∈ scored_rows backend p db build_seq query ↔
      (row.1 ∈ db.artifacts ∧ row.1.MemberAt build_seq) ∧
        (∃ token ∈ query_tokens p.unicode query, Mentions backend p row.1 token) ∧
          row.2 = row_score backend p (token_weights backend p db build_seq (query_tokens p.unicode query)) row.1 := by
  rw [scored_rows, List.mem_map]
  constructor
  · intro h
    obtain ⟨a, ha, hrow⟩ := h
    obtain ⟨hmember, hpos⟩ := List.mem_filter.1 ha
    rw [← hrow]
    dsimp only
    exact ⟨mem_members.1 hmember, (searched_iff hfold a).1 hpos, rfl⟩
  · intro h
    obtain ⟨hmember, hmention, hscore⟩ := h
    have hfound : row.1 ∈ (members db build_seq).filter (searched backend p query) :=
      List.mem_filter.2 ⟨mem_members.2 hmember, (searched_iff hfold row.1).2 hmention⟩
    refine ⟨row.1, hfound, ?_⟩
    rw [← hscore]

/-- Rows are told apart by their ids. -/
theorem nodup_score_keys (hkeyed : Keyed db) :
    ((scored_rows backend p db build_seq query).map score_key).Nodup := by
  have hids : (((scored_rows backend p db build_seq query).map score_key).map fun key => (ofLex key).2).Nodup := by
    have hmap : ((scored_rows backend p db build_seq query).map score_key).map (fun key => (ofLex key).2) =
        ((members db build_seq).filter (searched backend p query)).map (·.artifact_id) := by
      rw [scored_rows, List.map_map, List.map_map]
      rfl
    rw [hmap]
    exact ((List.filter_sublist.trans List.filter_sublist).map _).nodup hkeyed
  exact hids.of_map _

/-- An exact search: members that mention a token of the query only, each with its score, strictly best first; whoever is
missing ranks below all of a full list. -/
structure SearchedBest (backend : KeywordBackend) (p : Platform) (db : Database) (build_seq : Nat) (query : String) (top : Nat)
    (rows : List (KnowledgeArtifact × Rat)) : Prop where
  found : ∀ row ∈ rows, (row.1 ∈ db.artifacts ∧ row.1.MemberAt build_seq) ∧
    (∃ token ∈ query_tokens p.unicode query, Mentions backend p row.1 token) ∧
      row.2 = row_score backend p (token_weights backend p db build_seq (query_tokens p.unicode query)) row.1
  decreasing : rows.Pairwise fun better worse => score_key better < score_key worse
  capped : rows.length ≤ top
  missing : ∀ a ∈ db.artifacts, a.MemberAt build_seq →
    (∃ token ∈ query_tokens p.unicode query, Mentions backend p a token) → a ∉ rows.map (·.1) →
      rows.length = top ∧ ∀ better ∈ rows, score_key better <
        score_key (a, row_score backend p (token_weights backend p db build_seq (query_tokens p.unicode query)) a)

variable (p build_seq query top) in
theorem searchedBest_rows (hfold : backend.FoldsPlain) (hkeyed : Keyed db) :
    SearchedBest backend p db build_seq query top
      ((sorted score_order (scored_rows backend p db build_seq query)).take top) := by
  have hsorted := pairwise_lt_sorted score_order_iff (@nodup_score_keys backend p db build_seq query hkeyed)
  constructor
  case found =>
    intro row hrow
    exact (mem_scored_rows hfold).1 (mem_sorted.1 (List.mem_of_mem_take hrow))
  case decreasing => exact hsorted.sublist (List.take_sublist _ _)
  case capped => exact List.length_take_le _ _
  case missing =>
    intro a ha hmember hmention habsent
    have hrow : (a, row_score backend p (token_weights backend p db build_seq (query_tokens p.unicode query)) a) ∈
        scored_rows backend p db build_seq query :=
      List.mem_map_of_mem (List.mem_filter.2 ⟨mem_members.2 ⟨ha, hmember⟩, (searched_iff hfold a).2 hmention⟩)
    apply take_best hsorted (mem_sorted.2 hrow)
    intro hin
    have hid := List.mem_map_of_mem (f := fun row : KnowledgeArtifact × Rat => row.1) hin
    exact habsent hid

/-- The hits do not depend on the order of the table. -/
theorem keyword_search_perm (hkeyed : Keyed db) (hperm : db.artifacts.Perm db'.artifacts) :
    keyword_search backend p db build_seq query top = keyword_search backend p db' build_seq query top := by
  have hmembers : (members db build_seq).Perm (members db' build_seq) := hperm.filter _
  have hweights : ∀ tokens, token_weights backend p db build_seq tokens = token_weights backend p db' build_seq tokens := by
    intro tokens
    unfold token_weights
    rw [hmembers.length_eq]
    apply List.map_congr_left
    intro token _
    rw [hmembers.countP_eq]
  have hrows : (scored_rows backend p db build_seq query).Perm (scored_rows backend p db' build_seq query) := by
    rw [scored_rows, scored_rows, hweights]
    exact (hmembers.filter _).map _
  rw [keyword_search_eq, keyword_search_eq, sorted_congr score_order_iff (nodup_score_keys hkeyed) hrows]

end Search

section Cards

/-- The broker runs on this backend, as it does in production. -/
def RunsOn (backend : KeywordBackend) (deps : BrokerDeps) : Prop :=
  ∀ db query build_seq top, deps.search db query build_seq top = keyword_search backend deps.platform db build_seq query top

/-- A hydrated row mentions a token. -/
def RowMentions (backend : KeywordBackend) (row : ArtifactRow) (token : String) : Prop :=
  Shows backend token row.title ∨ Shows backend token row.search_text ∨ Shows backend token row.body_text

variable {backend : KeywordBackend} {deps : BrokerDeps} {db : Database} {build_seq : Nat} {query : String}
  {requester : Requester} {intent : Option Intent} {current_symbols : List String}

theorem mem_member_artifacts {entry : KnowledgeArtifact × SourceItem} (h : entry ∈ member_artifacts db build_seq) :
    entry.1 ∈ db.artifacts ∧ entry.1.MemberAt build_seq := by
  obtain ⟨hjoined, hmember⟩ := List.mem_filter.1 h
  obtain ⟨a, ha, hsource⟩ := List.mem_filterMap.1 hjoined
  obtain ⟨s, -, rfl⟩ := Option.map_eq_some_iff.1 hsource
  exact ⟨ha, of_decide_eq_true hmember⟩

/-- The ids that are hydrated are those of the rows found. -/
theorem mem_hit_ids {found : List (KnowledgeArtifact × Rat)} {id : Uuid} :
    id ∈ (hit_scores (found.map (search_hit backend))).map (·.1) ↔ ∃ row ∈ found, row.1.artifact_id = id := by
  rw [hit_scores, Dict.mem_keys_foldl_set (fun hit : SearchHit => hit.artifact_id) fun hit => hit.score, List.map_map,
    List.mem_map]
  simp [search_hit]

/-- What the best hits leave the cards of a retrieval to be: visible rows that mention the query only, strictly best first and
none like a better one; whoever is missing is like a better card, or the cards are full, or the hits are full of rows that match
better. -/
structure CardsBest (backend : KeywordBackend) (deps : BrokerDeps) (db : Database) (build_seq : Nat) (query : String)
    (requester : Requester) (intent : Option Intent) (found : List (KnowledgeArtifact × Rat)) (current_symbols : List String)
    (rows : List ArtifactRow) : Prop where
  visible : ∀ row ∈ rows, row ∈ visible_rows deps.platform db build_seq requester ∧
    ∃ token ∈ query_tokens deps.platform.unicode query, RowMentions backend row token
  decreasing : rows.Pairwise fun better worse =>
    (candidate_key deps intent (found.map (search_hit backend)) current_symbols worse).order <
      (candidate_key deps intent (found.map (search_hit backend)) current_symbols better).order
  apart : rows.Pairwise fun better worse =>
    deps.similarity (dedupe_text deps worse) (dedupe_text deps better) < deps.settings.semantic_dupe_threshold
  capped : rows.length ≤ deps.settings.max_cards_per_retrieval
  missing : ∀ row ∈ visible_rows deps.platform db build_seq requester,
    (∃ token ∈ query_tokens deps.platform.unicode query, RowMentions backend row token) → row ∉ rows →
      (∃ better ∈ rows, deps.settings.semantic_dupe_threshold ≤
        deps.similarity (dedupe_text deps row) (dedupe_text deps better)) ∨
      rows.length = deps.settings.max_cards_per_retrieval ∨
      found.length = deps.settings.max_cards_per_retrieval * SEARCH_OVERSAMPLE ∧
        ∀ better ∈ found, better.1.artifact_id ≠ row.artifact_id

theorem shows_map_body {a : KnowledgeArtifact} {s : SourceItem} {token : String} :
    RowMentions backend (artifact_row deps.platform db (a, s)) token ↔ Mentions backend deps.platform a token := Iff.rfl

theorem nodup_fetched_ids (hkeyed : Keyed db) (ids : List Uuid) :
    ((fetch_artifacts deps.platform db ids build_seq).map (·.artifact_id)).Nodup := by
  rw [fetch_artifacts, List.filter_map, List.map_map]
  have hids : ((member_artifacts db build_seq).map (·.1.artifact_id)).Nodup := nodup_member_ids hkeyed
  exact (List.filter_sublist.map _).nodup hids

variable (requester intent current_symbols) in
theorem cardsBest_ranked_rows (hstr : deps.platform.str_uuid.Injective) (hkeyed : Keyed db)
    {found : List (KnowledgeArtifact × Rat)}
    (hfound : SearchedBest backend deps.platform db build_seq query
      (deps.settings.max_cards_per_retrieval * SEARCH_OVERSAMPLE) found) :
    CardsBest backend deps db build_seq query requester intent found current_symbols
      (ranked_rows deps requester intent (found.map (search_hit backend))
        (fetch_artifacts deps.platform db ((hit_scores (found.map (search_hit backend))).map (·.1)) build_seq)
          current_symbols) := by
  have hrows := @nodup_fetched_ids deps db build_seq hkeyed ((hit_scores (found.map (search_hit backend))).map (·.1))
  have hexact := @rankedExact_ranked_rows deps requester intent (found.map (search_hit backend)) _ current_symbols hstr hrows
  constructor
  case visible =>
    intro row hrow
    obtain ⟨hfetched, hadmits⟩ := hexact.admitted row hrow
    obtain ⟨hmember, hhit⟩ := mem_fetch_artifacts.1 hfetched
    obtain ⟨entry, hentry, rfl⟩ := List.mem_map.1 hmember
    obtain ⟨hit, hhit, hid⟩ := mem_hit_ids.1 hhit
    obtain ⟨⟨ha, -⟩, ⟨token, htoken, hmention⟩, -⟩ := hfound.found hit hhit
    have hsame : hit.1 = entry.1 := List.inj_on_of_nodup_map hkeyed ha (mem_member_artifacts hentry).1 hid
    refine ⟨mem_filter_artifacts.2 ⟨hmember, hadmits⟩, token, htoken, ?_⟩
    rw [← Prod.mk.eta (p := entry), shows_map_body, ← hsame]
    exact hmention
  case decreasing => exact hexact.decreasing
  case apart => exact hexact.apart
  case capped => exact hexact.capped
  case missing =>
    intro row hrow hmention habsent
    obtain ⟨hmember, hadmits⟩ := mem_filter_artifacts.1 hrow
    obtain ⟨entry, hentry, rfl⟩ := List.mem_map.1 hmember
    obtain ⟨ha, hlive⟩ := mem_member_artifacts hentry
    by_cases hhit : entry.1 ∈ found.map (·.1)
    · obtain ⟨hit, hin, heq⟩ := List.mem_map.1 hhit
      have hid : entry.1.artifact_id ∈ (hit_scores (found.map (search_hit backend))).map (·.1) :=
        mem_hit_ids.2 ⟨hit, hin, by rw [heq]⟩
      cases hexact.missing _ (mem_fetch_artifacts.2 ⟨hmember, hid⟩) hadmits habsent with
      | inl hlike =>
        obtain ⟨better, hbetter, -, hsimilar⟩ := hlike
        exact .inl ⟨better, hbetter, hsimilar⟩
      | inr hfull => exact .inr (.inl hfull.1)
    · obtain ⟨hfull, -⟩ := hfound.missing entry.1 ha hlive hmention hhit
      refine .inr (.inr ⟨hfull, fun better hbetter hid => hhit ?_⟩)
      obtain ⟨⟨hbetter_mem, -⟩, -⟩ := hfound.found better hbetter
      have hsame : better.1 = entry.1 := List.inj_on_of_nodup_map hkeyed hbetter_mem ha hid
      exact List.mem_map.2 ⟨better, hbetter, hsame⟩

/-- Folding of texts without capital letters, and the weight of a token that every member holds. -/
def plain_backend : KeywordBackend := { fold := id, idf := fun _ _ => 1, float := id }

def keyword_deps : BrokerDeps :=
  { BrokerDeps.plain with
    search := fun db query build_seq top =>
      keyword_search plain_backend BrokerDeps.plain.platform db build_seq query top }

theorem runsOn_keyword_deps : RunsOn plain_backend keyword_deps := by
  intro db query build_seq top
  rw [keyword_deps]

end Cards

end AgenticKb.ContextBroker

import Mathlib.Data.Prod.Lex
import Mathlib.Data.List.MinMax
import AgenticKb.Alias.Run
import AgenticKb.Lib.Ranking
import AgenticKb.Properties.AliasTitles

open AgenticKb.Lib

namespace AgenticKb

/-- `str.lower` leaves lowercase ASCII letters, digits and blanks alone. -/
def KeepsPlain (u : Unicode) : Prop :=
  ∀ text : String, (∀ c ∈ text.toList, (c.isLower || c.isDigit || c == ' ') = true) → u.lower text = text

/-- A token that normalizing keeps. -/
structure PhraseToken (token : String) : Prop where
  long : 2 ≤ token.length
  plain : ∀ c ∈ token.toList, (c.isLower || c.isDigit) = true
  telling : token ∉ STOPWORDS

/-- Tokens put together with blanks. -/
def Canonical (phrase : String) : Prop :=
  ∃ tokens, tokens ≠ [] ∧ (∀ token ∈ tokens, PhraseToken token) ∧ phrase = join " " tokens

section Canonical

variable {u : Unicode} {text phrase token : String} {tokens : List String}

theorem phraseToken_of_tokenize (h : token ∈ tokenize u text) (htelling : token ∉ STOPWORDS) : PhraseToken token := by
  obtain ⟨hrun, hlong⟩ := List.mem_filter.1 h
  exact ⟨by simpa using hlong, (mem_runs hrun).2, htelling⟩

theorem canonical_of_tokenize (h : ∀ token ∈ tokens, token ∈ tokenize u text) (htelling : ∀ token ∈ tokens, token ∉ STOPWORDS)
    (hsome : join " " tokens ≠ "") : Canonical (join " " tokens) := by
  refine ⟨tokens, ?_, fun token htoken => phraseToken_of_tokenize (h token htoken) (htelling token htoken), rfl⟩
  rintro rfl
  exact hsome rfl

theorem canonical_filter (h : ∀ token ∈ tokens, token ∈ tokenize u text)
    (hsome : join " " (tokens.filter fun t => !STOPWORDS.contains t) ≠ "") :
    Canonical (join " " (tokens.filter fun t => !STOPWORDS.contains t)) := by
  apply canonical_of_tokenize (fun token htoken => h token (List.mem_of_mem_filter htoken)) _ hsome
  intro token htoken
  simpa using (List.mem_filter.1 htoken).2

theorem canonical_normalize_phrase (hsome : normalize_phrase u text ≠ "") : Canonical (normalize_phrase u text) :=
  canonical_filter (fun _ h => h) hsome

/-- Every character of tokens put together is a letter, a digit or a blank. -/
theorem plain_join (h : ∀ token ∈ tokens, PhraseToken token) :
    ∀ c ∈ (join " " tokens).toList, (c.isLower || c.isDigit || c == ' ') = true := by
  rw [join, String.toList_intercalate]
  induction tokens with
  | nil => simp
  | cons token tokens ih =>
    rw [List.forall_mem_cons] at h
    have hplain : ∀ c ∈ token.toList, (c.isLower || c.isDigit || c == ' ') = true := by
      intro c hc
      rw [h.1.plain c hc, Bool.true_or]
    cases tokens with
    | nil => simpa using hplain
    | cons next tokens =>
      rw [List.map_cons, List.map_cons, List.intercalate_cons_cons, List.forall_mem_append, List.forall_mem_append]
      exact ⟨⟨hplain, List.all_eq_true.1 (by decide)⟩, ih h.2⟩

theorem runs_canonical (htokens : ∀ token ∈ tokens, PhraseToken token) :
    runs (fun c => c.isLower || c.isDigit) (join " " tokens) = tokens := by
  apply @runs_join (fun c => c.isLower || c.isDigit) ' ' (by decide)
  intro token htoken
  refine ⟨?_, (htokens token htoken).plain⟩
  rintro rfl
  exact absurd (htokens "" htoken).long (by decide)

/-- Normalizing a canonical phrase gives it back. -/
theorem normalize_canonical (hu : KeepsPlain u) (h : Canonical phrase) : normalize_phrase u phrase = phrase := by
  obtain ⟨tokens, -, htokens, rfl⟩ := h
  rw [normalize_phrase, tokenize, hu _ (plain_join htokens), runs_canonical htokens, List.filter_filter,
    List.filter_eq_self.2]
  intro token htoken
  simp [(htokens token htoken).long, (htokens token htoken).telling]

theorem Canonical.ne_empty (h : Canonical phrase) : phrase ≠ "" := by
  obtain ⟨tokens, hsome, htokens, rfl⟩ := h
  intro hempty
  apply hsome
  rw [← runs_canonical htokens, hempty]
  rfl

end Canonical

section Mining

variable {u : Unicode} {subject path : String} {changed_files : List String}

theorem token_runs_ne_nil (tokens : List String) : token_runs tokens ≠ [] := by
  cases tokens with
  | nil => simp [token_runs]
  | cons token tokens =>
    rw [token_runs]
    split
    · exact List.cons_ne_nil _ _
    · split
      · exact List.cons_ne_nil _ _
      · exact List.cons_ne_nil _ _

theorem mem_token_runs {tokens run : List String} (h : run ∈ token_runs tokens) :
    ∀ token ∈ run, token ∈ tokens ∧ token ∉ STOPWORDS := by
  induction tokens generalizing run with
  | nil =>
    rw [token_runs, List.mem_singleton] at h
    simp [h]
  | cons first tokens ih =>
    have hlater : ∀ run ∈ token_runs tokens, ∀ token ∈ run, token ∈ first :: tokens ∧ token ∉ STOPWORDS :=
      fun run hrun token htoken => ⟨List.mem_cons_of_mem _ (ih hrun token htoken).1, (ih hrun token htoken).2⟩
    rw [token_runs] at h
    split at h
    · rename_i hnil
      exact absurd hnil (token_runs_ne_nil tokens)
    · rename_i current rest hruns
      rw [hruns, List.forall_mem_cons] at hlater
      split at h
      · rcases List.mem_cons.1 h with rfl | h
        · simp
        · rcases List.mem_cons.1 h with rfl | h
          · exact hlater.1
          · exact hlater.2 run h
      · rename_i htelling
        rcases List.mem_cons.1 h with rfl | h
        · rw [List.forall_mem_cons]
          exact ⟨⟨List.mem_cons_self, by simpa using htelling⟩, hlater.1⟩
        · exact hlater.2 run h

theorem canonical_ngram {gram : String} (h : gram ∈ ngram_phrases u subject) (hsome : gram ≠ "") : Canonical gram := by
  rw [ngram_phrases, List.mem_dedup] at h
  obtain ⟨run, hrun, h⟩ := List.mem_flatMap.1 h
  obtain ⟨tail, htail, h⟩ := List.mem_flatMap.1 h
  obtain ⟨size, -, h⟩ := List.mem_filterMap.1 h
  split at h
  · obtain rfl := Option.some.inj h
    have hin : ∀ token ∈ tail.take size, token ∈ run :=
      fun token htoken => ((List.mem_tails _ _).1 htail).subset (List.mem_of_mem_take htoken)
    exact canonical_of_tokenize (fun token htoken => (mem_token_runs hrun token (hin token htoken)).1)
      (fun token htoken => (mem_token_runs hrun token (hin token htoken)).2) hsome
  · cases h

theorem canonical_slug {slug : String} (h : doc_slug_phrase u path = some slug) : Canonical slug := by
  unfold doc_slug_phrase at h
  dsimp only at h
  split at h
  · cases h
  · split at h
    · cases h
    · rename_i hlong
      obtain rfl := Option.some.inj h
      refine ⟨_, ?_, fun token htoken => ?_, rfl⟩
      · rintro hnone
        rw [hnone] at hlong
        exact hlong (by decide)
      · obtain ⟨hin, htelling⟩ := List.mem_filter.1 htoken
        exact phraseToken_of_tokenize ((List.dropWhile_suffix _).subset hin) (by simpa using htelling)

/-- Every key of the miner's dictionary is canonical. -/
def CanonicalKeys (phrases : Dict String (List String)) : Prop := ∀ entry ∈ phrases, Canonical entry.1

theorem canonicalKeys_merge {phrases : Dict String (List String)} {phrase : String} {targets : List String}
    (h : CanonicalKeys phrases) (hphrase : phrase ≠ "" → Canonical phrase) :
    CanonicalKeys (merge_phrase phrases phrase targets) := by
  unfold merge_phrase
  split
  · exact h
  · rename_i hsome
    intro entry hentry
    rcases Dict.mem_set hentry with hold | rfl
    · exact h entry hold
    · exact hphrase hsome

theorem canonical_mined_phrases {phrases : Dict String (List String)} (h : CanonicalKeys phrases) :
    ∀ mined ∈ mined_phrases phrases, Canonical mined.phrase := by
  intro mined hmined
  rw [mined_phrases, mem_sorted] at hmined
  obtain ⟨entry, hentry, rfl⟩ := List.mem_map.1 hmined
  exact h entry hentry

theorem canonical_mine_commit : ∀ mined ∈ mine_commit u subject changed_files, Canonical mined.phrase := by
  apply canonical_mined_phrases
  refine foldl_invariant (I := CanonicalKeys) ?_ ?_
  · intro phrases path _ hphrases
    split
    · rename_i slug hslug
      exact canonicalKeys_merge hphrases fun _ => canonical_slug hslug
    · exact hphrases
  · split
    · exact fun _ h => absurd h List.not_mem_nil
    · refine foldl_invariant (I := CanonicalKeys) ?_ ?_
      · exact fun phrases gram hgram hphrases => canonicalKeys_merge hphrases (canonical_ngram hgram)
      · split
        · exact canonicalKeys_merge (fun _ h => absurd h List.not_mem_nil) canonical_normalize_phrase
        · exact fun _ h => absurd h List.not_mem_nil

theorem canonical_mine_doc_source : ∀ mined ∈ mine_doc_source u path, Canonical mined.phrase := by
  intro mined hmined
  unfold mine_doc_source at hmined
  split at hmined
  · rename_i slug hslug
    rw [List.mem_singleton] at hmined
    rw [hmined]
    exact canonical_slug hslug
  · simp at hmined

theorem canonical_extract_phrases (input : MiningInput) : ∀ mined ∈ extract_phrases u input, Canonical mined.phrase := by
  unfold extract_phrases
  split
  · exact canonical_mine_commit
  · exact canonical_mine_doc_source

end Mining

section Pass

variable {u : Unicode} {p : Platform} {r : Registry} {kb_version : String} {n : Nat}

/-- An aggregate's phrase is one of those its contributions mined. -/
theorem aggregate_phrase_mined {contributions : List SourceContribution} {a : AliasAggregate}
    (h : a ∈ aggregate_contributions u contributions) :
    ∃ contribution ∈ contributions, ∃ mined ∈ contribution.phrases, mined.phrase = a.phrase := by
  have hkeys : ∀ entry ∈ contributions.foldl (fun d contribution =>
      contribution.phrases.foldl (fun (d : Dict String (List ContributionEvidence)) mined =>
        d.append_to mined.phrase
          ⟨contribution.source_key, contribution.ref, contribution.content_hash, mined.targets⟩) d) [],
      ∃ contribution ∈ contributions, ∃ mined ∈ contribution.phrases, mined.phrase = entry.1 := by
    refine foldl_invariant (I := fun d : Dict String (List ContributionEvidence) => ∀ entry ∈ d,
      ∃ contribution ∈ contributions, ∃ mined ∈ contribution.phrases, mined.phrase = entry.1) ?_ (by simp)
    intro d contribution hcontribution hd
    refine foldl_invariant (I := fun d : Dict String (List ContributionEvidence) => ∀ entry ∈ d,
      ∃ contribution ∈ contributions, ∃ mined ∈ contribution.phrases, mined.phrase = entry.1) ?_ hd
    intro d mined hmined hd entry hentry
    rcases Dict.mem_set hentry with hold | rfl
    · exact hd entry hold
    · exact ⟨contribution, hcontribution, mined, hmined, rfl⟩
  rw [aggregate_contributions] at h
  obtain ⟨entry, hentry, rfl⟩ := List.mem_map.1 h
  exact hkeys entry (mem_sorted.1 hentry)

/-- The phrases read back of every source satisfy something. -/
def ReadBack (good : String → Prop) (known : Dict String (String × Dict String (List String))) : Prop :=
  ∀ source ∈ known, ∀ entry ∈ source.2.2, good entry.1

theorem readBack_step {good : String → Prop} {title : String} {evidence : AliasEvidence}
    {state : Dict String (String × Dict String (List String)) × List String} (htitle : good title)
    (h : ReadBack good state.1) : ReadBack good (prior_extraction_step title state evidence).1 := by
  unfold prior_extraction_step
  cases evidence with
  | misses => exact h
  | mined source ref content_hash targets =>
    dsimp only
    split
    · exact h
    · split
      · intro known hknown entry hentry
        rcases Dict.mem_set hknown with hold | rfl
        · exact h known hold entry hentry
        · rw [List.mem_singleton.1 hentry]
          exact htitle
      · rename_i mined_hash phrases hget
        have hphrases := h _ (Dict.mem_of_get? hget)
        split
        · intro known hknown entry hentry
          rcases Dict.mem_set hknown with hold | rfl
          · exact h known hold entry hentry
          · rcases Dict.mem_set hentry with hold | rfl
            · exact hphrases entry hold
            · exact htitle
        · exact fun known hknown => h known (List.mem_of_mem_filter hknown)

theorem readBack_prior_extractions {good : String → Prop} {prior_rows : Dict String KnowledgeArtifact}
    (h : ∀ row ∈ prior_rows, good row.1) : ReadBack good (prior_extractions prior_rows) := by
  refine foldl_invariant (I := fun state : Dict String (String × Dict String (List String)) × List String =>
    ReadBack good state.1) ?_ (by simp [ReadBack])
  intro state row hrow hstate
  dsimp only
  split
  · exact foldl_invariant (I := fun state : Dict String (String × Dict String (List String)) × List String =>
      ReadBack good state.1) (fun _ _ _ => readBack_step (h row (mem_sorted.1 hrow))) hstate
  · exact hstate

/-- Where the titles of the prior rows are canonical, so are the phrases of the aggregates. -/
theorem canonical_mined_aggregates {inputs : List MiningInput} {prior_rows : Dict String KnowledgeArtifact}
    (h : ∀ row ∈ prior_rows, Canonical row.1) {a : AliasAggregate} (ha : a ∈ mined_aggregates u inputs prior_rows) :
    Canonical a.phrase := by
  obtain ⟨_, hcontribution, mined, hmined, hphrase⟩ := aggregate_phrase_mined ha
  obtain ⟨input, -, rfl⟩ := List.mem_map.1 hcontribution
  rw [← hphrase]
  unfold contribution at hmined
  dsimp only at hmined
  split at hmined
  · rename_i content_hash phrases hget
    split at hmined
    · obtain ⟨entry, hentry, rfl⟩ := List.mem_map.1 hmined
      exact readBack_prior_extractions h _ (Dict.mem_of_get? hget) entry (mem_sorted.1 hentry)
    · exact canonical_extract_phrases input mined hmined
  · exact canonical_extract_phrases input mined hmined

/-- Every alias row has a canonical title. -/
def CanonicalTitles (r : Registry) : Prop :=
  ∀ a ∈ r.artifacts, a.artifact_type = .alias_reference → ∀ title, a.title = some title → Canonical title

theorem canonicalTitles_write {revive : Bool} {prior : Option KnowledgeArtifact} {desired : DesiredAlias}
    (h : CanonicalTitles r) (hphrase : Canonical desired.phrase) :
    CanonicalTitles (write_alias p kb_version n revive r prior desired).1 := by
  intro a ha htype title htitle
  cases prior with
  | none =>
    rcases mem_write_new ha with hold | ⟨-, hnew⟩
    · exact h a hold htype title htitle
    · rw [hnew, Option.some.injEq] at htitle
      exact htitle ▸ hphrase
  | some row =>
    obtain ⟨old, hold, -, holdtitle, holdtype, -⟩ := mem_write_prior ha
    exact h old hold (holdtype.trans htype) title (holdtitle.trans htitle)

theorem canonicalTitles_retire {ids : List Uuid} (h : CanonicalTitles r) : CanonicalTitles (retire_aliases r n ids) := by
  intro a ha htype title htitle
  obtain ⟨old, hold, rfl⟩ := List.mem_map.1 ha
  dsimp only at htype htitle
  split at htype
  · rename_i hretired
    rw [if_pos hretired] at htitle
    exact h old hold htype title htitle
  · rename_i hkept
    rw [if_neg hkept] at htitle
    exact h old hold htype title htitle

theorem reconcile_edges_artifacts {desired : Dict (Uuid × Uuid) DesiredEdge} :
    (reconcile_edges p r kb_version n desired).artifacts = r.artifacts := by
  unfold reconcile_edges
  dsimp only
  refine foldl_invariant (I := fun mid : Registry => mid.artifacts = r.artifacts) ?_ rfl
  intro mid entry _ hmid
  exact hmid

/-- A pass over the documents writes canonical titles. -/
theorem canonicalTitles_run_alias_miner (h : CanonicalTitles r) : CanonicalTitles (run_alias_miner p r kb_version n) := by
  have hprior : ∀ row ∈ first_by_title (alias_rows r n), Canonical row.1 := by
    intro row hrow
    obtain ⟨hin, htitle⟩ := mem_first_by_title hrow
    obtain ⟨ha, htype, -⟩ := mem_alias_rows hin
    exact h row.2 ha htype row.1 htitle
  have hrows : CanonicalTitles (reconcile_aliases p r kb_version n).1 := by
    unfold reconcile_aliases
    apply reconcile_artifacts_rule (I := CanonicalTitles)
    · intro mid aggregate haggregate wanted hwanted hmid
      apply canonicalTitles_write hmid
      rw [desired_alias_phrase hwanted]
      exact canonical_mined_aggregates hprior haggregate
    · exact fun mid hmid => canonicalTitles_retire hmid
    · exact canonicalTitles_retire h
  unfold CanonicalTitles
  rw [run_alias_miner, reconcile_edges_artifacts]
  exact hrows

theorem canonical_miss_group {events : List RetrievalEvent} {window_start : Timestamp} {group : MissGroup}
    (h : group ∈ load_miss_groups u events window_start) : Canonical group.phrase := by
  have hkeys : ∀ entry ∈ (events.filter fun e => e.tool_name == "kb_search" && e.status == "approved" &&
      e.returned_artifacts ≤ 1 && window_start ≤ e.created_at && e.query_text.isSome).foldl
        (fun (d : Dict String (List RetrievalEvent)) e =>
          let phrase := normalize_phrase u (sanitize_query_text (e.query_text.getD ""))
          if phrase = "" then d else d.append_to phrase e) [], Canonical entry.1 := by
    refine foldl_invariant (I := fun d : Dict String (List RetrievalEvent) => ∀ entry ∈ d, Canonical entry.1) ?_ (by simp)
    intro d event _ hd entry hentry
    dsimp only at hentry
    split at hentry
    · exact hd entry hentry
    · rename_i hsome
      rcases Dict.mem_set hentry with hold | rfl
      · exact hd entry hold
      · exact canonical_normalize_phrase hsome
  rw [load_miss_groups] at h
  obtain ⟨entry, hentry, rfl⟩ := List.mem_map.1 h
  exact hkeys entry (mem_sorted.1 hentry)

/-- A pass over the queries that missed writes canonical titles. -/
theorem canonicalTitles_run_ledger_alias_miner {events : List RetrievalEvent} {window_start : Timestamp}
    (h : CanonicalTitles r) : CanonicalTitles (run_ledger_alias_miner p r kb_version n events window_start) := by
  unfold run_ledger_alias_miner
  apply canonicalTitles_retire
  refine foldl_invariant (I := CanonicalTitles) ?_ h
  intro mid desired hdesired hmid
  apply canonicalTitles_write hmid
  obtain ⟨group, hgroup, hwanted⟩ := List.mem_filterMap.1 hdesired
  rw [(ledger_alias_phrase hwanted).1]
  exact canonical_miss_group hgroup

end Pass

end AgenticKb

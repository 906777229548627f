import Mathlib.Data.Prod.Lex
import AgenticKb.Lib.Ranking
import AgenticKb.Properties.MinedAliases

open AgenticKb.Lib

namespace AgenticKb

section Resolve

variable {u : Unicode} {query_tokens : List String} {entries : List AliasEntry}

/-- The score of an entry that is above the floor. -/
def candidate (u : Unicode) (query_tokens : List String) (entry : AliasEntry) : Option (Rat × AliasEntry) :=
  match overlap_score query_tokens (split_words u entry.alias_name).dedup with
  | none => none
  | some score => if score < MIN_FUZZY_SCORE then none else some (score, entry)

/-- The higher score first, then the higher confirmation count, then the lower alias. -/
def candidate_key (best : Rat × AliasEntry) : Rat ×ₗ Nat ×ₗ (List Char)ᵒᵈ :=
  toLex (best.1, toLex (best.2.confirmation_count, OrderDual.toDual best.2.alias_name.toList))

theorem candidate_key_lt {best other : Rat × AliasEntry} :
    candidate_key best < candidate_key other ↔
      (best.1 < other.1 || (best.1 == other.1 &&
        (best.2.confirmation_count < other.2.confirmation_count ||
          (best.2.confirmation_count == other.2.confirmation_count &&
            !str_le best.2.alias_name other.2.alias_name)))) = true := by
  simp [candidate_key, Prod.Lex.toLex_lt_toLex, str_le]

theorem candidate_key_inj {best other : Rat × AliasEntry} (hrows : best.2.alias_name = other.2.alias_name → best.2 = other.2)
    (h : candidate_key best = candidate_key other) : best = other := by
  have hparts := Prod.mk.inj (toLex_inj.1 h)
  have halias : best.2.alias_name.toList = other.2.alias_name.toList := (Prod.mk.inj (toLex_inj.1 hparts.2)).2
  exact Prod.ext hparts.1 (hrows (String.ext halias))

/-- The fuzzy scan finds the best of the entries above the floor. -/
theorem foldl_better_entry (entries : List AliasEntry) :
    entries.foldl (better_entry u query_tokens) none =
      (entries.filterMap (candidate u query_tokens)).argmax candidate_key := by
  induction entries using List.reverseRecOn with
  | nil => rfl
  | append_singleton entries entry ih =>
    rw [List.foldl_append, List.foldl_cons, List.foldl_nil, ih, List.filterMap_append, better_entry]
    cases hscore : overlap_score query_tokens (split_words u entry.alias_name).dedup with
    | none => simp [candidate, hscore]
    | some score =>
      by_cases hfloor : score < MIN_FUZZY_SCORE
      · simp [candidate, hscore, hfloor]
      · have hentry : [entry].filterMap (candidate u query_tokens) = [(score, entry)] := by
          simp [candidate, hscore, hfloor]
        rw [hentry, List.argmax_concat]
        dsimp only
        rw [if_neg hfloor]
        cases (entries.filterMap (candidate u query_tokens)).argmax candidate_key with
        | none => rfl
        | some best =>
          dsimp only
          by_cases hbetter : candidate_key best < candidate_key (score, entry)
          · rw [if_pos hbetter, if_pos (candidate_key_lt.1 hbetter)]
          · rw [if_neg hbetter, if_neg (mt candidate_key_lt.2 hbetter)]

/-- Rows of one alias are one row. -/
def OneRowPerAlias (entries : List AliasEntry) : Prop :=
  ∀ a ∈ entries, ∀ b ∈ entries, a.alias_name = b.alias_name → a = b

theorem find?_row_iff (hrows : OneRowPerAlias entries) {name : String} {entry : AliasEntry} :
    (entries.find? fun entry => entry.alias_name == name) = some entry ↔ entry ∈ entries ∧ entry.alias_name = name := by
  constructor
  · exact fun h => ⟨List.mem_of_find?_eq_some h, by simpa using List.find?_some h⟩
  · rintro ⟨hentry, rfl⟩
    cases hfound : entries.find? fun other => other.alias_name == entry.alias_name with
    | none =>
      have hnone := List.find?_eq_none.1 hfound entry hentry
      simp at hnone
    | some other =>
      have hother : other.alias_name = entry.alias_name := by simpa using List.find?_some hfound
      rw [hrows other (List.mem_of_find?_eq_some hfound) entry hentry hother]

/-- The answer does not depend on the order of the rows. -/
theorem resolution_congr {others : List AliasEntry} (hrows : OneRowPerAlias entries) (hperm : entries.Perm others)
    (query : String) : resolution u query entries = resolution u query others := by
  have hexact : (entries.find? fun entry => entry.alias_name == normalize_phrase u query) =
      others.find? fun entry => entry.alias_name == normalize_phrase u query := by
    have hothers : OneRowPerAlias others :=
      fun a ha b hb => hrows a (hperm.mem_iff.2 ha) b (hperm.mem_iff.2 hb)
    apply Option.ext
    intro entry
    rw [find?_row_iff hrows, find?_row_iff hothers, hperm.mem_iff]
  have hfuzzy : ∀ query_tokens, entries.foldl (better_entry u query_tokens) none =
      others.foldl (better_entry u query_tokens) none := by
    intro query_tokens
    rw [foldl_better_entry, foldl_better_entry]
    apply argmax_congr _ (hperm.filterMap _)
    have hcandidate : ∀ best ∈ entries.filterMap (candidate u query_tokens), best.2 ∈ entries := by
      intro best hbest
      obtain ⟨entry, hentry, hscored⟩ := List.mem_filterMap.1 hbest
      unfold candidate at hscored
      split at hscored
      · cases hscored
      · split at hscored
        · cases hscored
        · rw [← Option.some.inj hscored]
          exact hentry
    intro best hbest other hother
    exact candidate_key_inj (hrows _ (hcandidate best hbest) _ (hcandidate other hother))
  rw [resolution, resolution, hexact, hfuzzy]

/-- A query that normalizes to a row's alias finds that row. -/
theorem resolution_exact {entry : AliasEntry} {query : String} (hrows : OneRowPerAlias entries) (hentry : entry ∈ entries)
    (hquery : normalize_phrase u query = entry.alias_name) (hsome : entry.alias_name ≠ "") :
    resolution u query entries = some ⟨entry.alias_name, 1, .exact, entry.targets⟩ := by
  have hfound : (entries.find? fun other => other.alias_name == normalize_phrase u query) = some entry :=
    (find?_row_iff hrows).2 ⟨hentry, hquery.symm⟩
  rw [resolution, hfound, if_neg (by rwa [hquery])]

end Resolve

section Index

variable {p : Platform} {r : Registry}

/-- The registries that the miners and the rest of the builds lead to: nothing but the miners gives an alias row a title. -/
inductive MinedHistory (p : Platform) : Registry → Prop where
  | start {r : Registry} (h : ∀ a ∈ r.artifacts, a.artifact_type ≠ .alias_reference) : MinedHistory p r
  | other {r r' : Registry} (h : MinedHistory p r)
      (hother : ∀ a ∈ r'.artifacts, a.artifact_type = .alias_reference →
        ∃ old ∈ r.artifacts, old.artifact_type = .alias_reference ∧ old.title = a.title) : MinedHistory p r'
  | mined {r : Registry} (h : MinedHistory p r) (kb_version : String) (n : Nat) (miner : AliasMiner) :
      MinedHistory p (mine p kb_version n r miner)

theorem MinedHistory.canonicalTitles (h : MinedHistory p r) : CanonicalTitles r := by
  induction h with
  | start h => exact fun a ha htype => absurd htype (h a ha)
  | other _ hother ih =>
    intro a ha htype title htitle
    obtain ⟨old, hold, holdtype, holdtitle⟩ := hother a ha htype
    exact ih old hold holdtype title (holdtitle.trans htitle)
  | mined _ kb_version n miner ih =>
    cases miner with
    | documents => exact canonicalTitles_run_alias_miner ih
    | ledger events window_start => exact canonicalTitles_run_ledger_alias_miner ih

/-- Whatever carries an alias title in the one registry carries it in the other. -/
def NoNewTitles (r r' : Registry) : Prop :=
  ∀ a ∈ r'.artifacts, a.artifact_type = .alias_reference →
    ∃ old ∈ r.artifacts, old.artifact_type = .alias_reference ∧ old.title = a.title

theorem noNewTitles_of_artifacts {r r' : Registry} (h : r'.artifacts = r.artifacts) : NoNewTitles r r' :=
  fun a ha htype => ⟨a, h ▸ ha, htype, rfl⟩

theorem NoNewTitles.trans {r r' r'' : Registry} (h : NoNewTitles r r') (h' : NoNewTitles r' r'') : NoNewTitles r r'' := by
  intro a ha htype
  obtain ⟨old, hold, hold_type, htitle⟩ := h' a ha htype
  obtain ⟨older, holder, holder_type, htitle'⟩ := h old hold hold_type
  exact ⟨older, holder, holder_type, htitle'.trans htitle⟩

/-- No extraction is an alias. -/
theorem noNewTitles_extracted {r r' : Registry} {added : List KnowledgeArtifact}
    (hartifacts : r'.artifacts = r.artifacts ++ added) (hadded : ∀ a ∈ added, a.artifact_type ≠ .alias_reference) :
    NoNewTitles r r' := by
  intro a ha htype
  rw [hartifacts] at ha
  cases List.mem_append.1 ha with
  | inl hold => exact ⟨a, hold, htype, rfl⟩
  | inr hnew => exact absurd htype (hadded a hnew)

theorem loopRule_noNewTitles (p : Platform) (b : Build) (n : Nat) (r : Registry) :
    LoopRule p b n (fun _ _ => True) (fun _ _ => True) fun r' _ => NoNewTitles r r' where
  touched htouch h := h.trans (noNewTitles_of_artifacts htouch.artifacts)
  processed _ h _ _ _ _ hprocessed _ :=
    h.trans (noNewTitles_extracted hprocessed.artifacts fun a ha => (hprocessed.extracted a ha).not_alias)
  repo _ _ _ _ h _ _ hw := by
    refine h.trans (noNewTitles_extracted hw.artifacts fun a ha => ?_)
    obtain ⟨path, unit, -, -, -, hext⟩ := hw.extracted a ha
    exact hext.not_alias

theorem Finalizes.noNewTitles {b : Build} {seen changed : List Uuid} {started_at : Timestamp} {passes : Finalized}
    (h : Finalizes p b r seen changed started_at passes) (hwf : WellFormed p r) : NoNewTitles r passes.invalidated := by
  refine (noNewTitles_of_artifacts h.onlyEdges_judged.artifacts).trans ?_
  intro a ha htype
  obtain ⟨old, hold, hkept⟩ := ((h.invalidates hwf).artifacts.origin ha).resolve_right id
  exact ⟨old, hold, hkept.same.artifact_type.symm.trans htype, hkept.same.title.symm⟩

/-- A build, in whatever order its miners take turns … -/
theorem minedHistory_run_mined (hinj : Function.Injective p.gen_random_uuid) (hwf : WellFormed p r)
    (h : MinedHistory p r) (turn : Build × List AliasMiner) : MinedHistory p (run_mined p r turn) := by
  have hstart : NoNewTitles r (start_run p r turn.1.kb_version) := noNewTitles_of_artifacts rfl
  have hgood := run_rule_of_any (loopRule_noNewTitles p turn.1 (r.build_seq + 1) r) hwf hinj hstart
  unfold run_mined
  dsimp only
  cases run_end p r turn.1 with
  | failed hsources hpasses hsame =>
    rw [hpasses]
    exact h.other (hgood.committed.trans (noNewTitles_of_artifacts hsame.artifacts))
  | completed passes hsources hpasses hfinal hsame =>
    have hinvalidated : MinedHistory p passes.invalidated :=
      h.other (hgood.current.trans (hfinal.noNewTitles hgood.current_wellFormed))
    rw [hpasses]
    dsimp only
    refine .other ?_ (noNewTitles_of_artifacts (sameCore_finish_run _ _ _ _).artifacts)
    exact foldl_invariant (fun r miner _ hr => hr.mined turn.1.kb_version passes.invalidated.build_seq miner) hinvalidated

/-- … and so every sequence of builds leads to such a registry. -/
theorem minedHistory_history (hinj : Function.Injective p.gen_random_uuid) (builds : List Build) :
    MinedHistory p (history p cached_generation builds) := by
  refine (foldl_invariant (I := fun r => WellFormed p r ∧ MinedHistory p r) ?_
    ⟨wellFormed_empty p, .start (by simp [Registry.empty])⟩).2
  rintro r b - ⟨hwf, h⟩
  have hmined := minedHistory_run_mined hinj hwf h (b, [.documents, .ledger b.retrieval_events b.window_start])
  exact ⟨(wellFormed_next hwf hinj).1,
    hmined.other (noNewTitles_of_artifacts (run_mined_next hinj hwf b).artifacts.symm)⟩

theorem load_alias_entry_some {a : KnowledgeArtifact} {entry : AliasEntry} (h : load_alias_entry a = some entry) :
    a.artifact_type = .alias_reference ∧ a.Live ∧ a.title = some entry.alias_name := by
  unfold load_alias_entry at h
  split at h
  · rename_i hlive
    rw [Bool.and_eq_true, beq_iff_eq, Option.isNone_iff_eq_none] at hlive
    split at h
    · rename_i title body htitle hbody
      rw [← Option.some.inj h]
      exact ⟨hlive.1, hlive.2, htitle⟩
    · cases h
  · cases h

/-- Where one live row has each title, the index has one row of each alias. -/
theorem oneRowPerAlias_index (hids : (r.artifacts.map (·.artifact_id)).Nodup) (hone : OneLiveAlias r) :
    OneRowPerAlias (load_alias_entries r) := by
  intro entry hentry other hother hname
  obtain ⟨a, ha, hloaded⟩ := List.mem_filterMap.1 (mem_sorted.1 hentry)
  obtain ⟨b, hb, hloaded'⟩ := List.mem_filterMap.1 (mem_sorted.1 hother)
  obtain ⟨htype, hlive, htitle⟩ := load_alias_entry_some hloaded
  obtain ⟨htype', hlive', htitle'⟩ := load_alias_entry_some hloaded'
  have hid : a.artifact_id = b.artifact_id := by
    apply hone entry.alias_name _ _ ⟨a, ha, htype, hlive, htitle, rfl⟩
    exact ⟨b, hb, htype', hlive', by rw [hname, htitle'], rfl⟩
  obtain rfl := List.inj_on_of_nodup_map hids ha hb hid
  rw [hloaded] at hloaded'
  exact Option.some.inj hloaded'

/-- What a miner stores is a fixpoint of the normalization of queries, so that every spelling that normalizes to it finds
the targets of its row; and the resolver's answer does not depend on the order of a table with one row for each alias. -/
theorem mined_aliases_resolve (p : Platform) (hlower : KeepsPlain p.unicode) :
    (∀ input, ∀ mined ∈ extract_phrases p.unicode input, normalize_phrase p.unicode mined.phrase = mined.phrase) ∧
    (∀ r, MinedHistory p r → ∀ a ∈ r.artifacts, a.artifact_type = .alias_reference → ∀ title, a.title = some title →
      normalize_phrase p.unicode title = title ∧
      ∀ body, parse_body a = some body → a.Live → (r.artifacts.map (·.artifact_id)).Nodup → OneLiveAlias r →
        ∀ query, normalize_phrase p.unicode query = title →
          resolution p.unicode query (load_alias_entries r) = some ⟨title, 1, .exact, body.targets.map (·.path)⟩) ∧
    ∀ entries others : List AliasEntry, OneRowPerAlias entries → entries.Perm others → ∀ query,
      resolution p.unicode query entries = resolution p.unicode query others := by
  refine ⟨?_, ?_, fun entries others hrows hperm query => resolution_congr hrows hperm query⟩
  · exact fun input mined hmined => normalize_canonical hlower (canonical_extract_phrases input mined hmined)
  · intro r hr a ha htype title htitle
    have hcanonical := hr.canonicalTitles a ha htype title htitle
    refine ⟨normalize_canonical hlower hcanonical, ?_⟩
    intro body hbody hlive hids hone query hquery
    have hloaded : load_alias_entry a = some ⟨title, body.targets.map (·.path), body.confirmation_count⟩ := by
      have hread : (a.artifact_type == .alias_reference && a.invalidated_at_seq.isNone) = true := by
        rw [Bool.and_eq_true, beq_iff_eq, Option.isNone_iff_eq_none]
        exact ⟨htype, hlive⟩
      rw [load_alias_entry, if_pos hread, htitle, hbody]
    have hentry : (⟨title, body.targets.map (·.path), body.confirmation_count⟩ : AliasEntry) ∈ load_alias_entries r :=
      mem_sorted.2 (List.mem_filterMap.2 ⟨a, ha, hloaded⟩)
    exact resolution_exact (oneRowPerAlias_index hids hone) hentry hquery hcanonical.ne_empty

end Index

theorem keepsPlain_ascii : KeepsPlain .ascii := by
  intro text htext
  have hsame : ∀ c ∈ text.toList, c.toLower = c := by
    intro c hc
    have hplain := htext c hc
    delta Char.toLower
    rw [dif_neg]
    rintro ⟨habove, hbelow⟩
    have hclass : ((decide (c.val ≥ 'a'.val) && decide (c.val ≤ 'z'.val)) ||
        (decide (c.val ≥ '0'.val) && decide (c.val ≤ '9'.val)) || c == ' ') = true := hplain
    simp only [Bool.or_eq_true, Bool.and_eq_true, decide_eq_true_eq, beq_iff_eq] at hclass
    rcases hclass with (hletter | hdigit) | rfl
    · exact absurd (UInt32.le_trans hletter.1 hbelow) (by decide)
    · exact absurd (UInt32.le_trans habove hdigit.2) (by decide)
    · exact absurd habove (by decide)
  rw [Unicode.ascii]
  dsimp only
  rw [List.map_congr_left hsame, List.map_id', String.ofList_toList]

/-- The registry of one guide, mined once. -/
def mined_guide : Registry :=
  mine .plain "v1" 1
    { Registry.empty with
      source_items := [
        { source_id := 7, source_type := .github_doc, source_uri := "docs/PR-12-payment-retries.md", source_version := "1"
          repo := none, branch := none, path := some "docs/PR-12-payment-retries.md", external_id := none
          content_hash := "h", last_seen_at := none, acl_teams := [], is_deleted := false, created_at := 0 }] }
    .documents

/-- Another spelling of its name leads to it. -/
theorem mined_aliases_resolve_guide :
    resolution .ascii "the Payment-RETRIES" (load_alias_entries mined_guide) =
      some ⟨"payment retries", 1, .exact, ["docs/PR-12-payment-retries.md"]⟩ := by
  have hhistory : MinedHistory .plain mined_guide := .mined (.start (by simp [Registry.empty])) "v1" 1 .documents
  have hrow : mined_guide.artifacts.map (fun a => (a.artifact_type, a.title, a.invalidated_at_seq,
      (parse_body a).map fun body => body.targets.map (·.path))) =
      [(.alias_reference, some "payment retries", none, some ["docs/PR-12-payment-retries.md"])] := by
    decide +kernel
  obtain ⟨a, hartifacts, hfields⟩ := List.map_eq_singleton_iff.1 hrow
  obtain ⟨htype, hfields⟩ := Prod.mk.inj hfields
  obtain ⟨htitle, hfields⟩ := Prod.mk.inj hfields
  obtain ⟨hlive, hfields⟩ := Prod.mk.inj hfields
  obtain ⟨body, hbody, htargets⟩ := Option.map_eq_some_iff.1 hfields
  have hone : OneLiveAlias mined_guide := by
    rintro title id id' ⟨b, hb, -, -, -, rfl⟩ ⟨b', hb', -, -, -, rfl⟩
    rw [hartifacts, List.mem_singleton] at hb hb'
    rw [hb, hb']
  have hids : (mined_guide.artifacts.map (·.artifact_id)).Nodup := by
    rw [hartifacts]
    exact List.nodup_singleton _
  have hspelling : normalize_phrase .ascii "the Payment-RETRIES" = "payment retries" := by decide +kernel
  rw [← htargets]
  exact ((mined_aliases_resolve .plain keepsPlain_ascii).2.1 mined_guide hhistory a (by simp [hartifacts]) htype _ htitle).2 body
    hbody hlive hids hone _ hspelling

/-- Two rows of one alias are told apart by their order alone. -/
theorem resolution_depends_on_order : ¬∀ (entries others : List AliasEntry), entries.Perm others → ∀ query,
    resolution .ascii query entries = resolution .ascii query others := by
  intro h
  have hsame := h [⟨"payment retries", ["a.py"], 1⟩, ⟨"payment retries", ["b.py"], 1⟩]
    [⟨"payment retries", ["b.py"], 1⟩, ⟨"payment retries", ["a.py"], 1⟩] (.swap _ _ _) "payment retries"
  revert hsame
  decide +kernel

end AgenticKb

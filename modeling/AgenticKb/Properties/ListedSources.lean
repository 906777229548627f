import AgenticKb.Effects.Build

open AgenticKb.Lib

namespace AgenticKb

/-- The source has a live row and, if it has text, version `s` serves an artifact of it. -/
def ListedServed (r : Registry) (s : Nat) (fetched : NormalizedContent) : Prop :=
  ∃ row ∈ r.source_items, same_source fetched row = true ∧ row.is_deleted = false ∧
    (fetched.text ≠ "" → ∃ a ∈ r.artifacts, a.source_id = row.source_id ∧ a.MemberAt s)

instance (r : Registry) (s : Nat) (fetched : NormalizedContent) : Decidable (ListedServed r s fetched) :=
  inferInstanceAs (Decidable (∃ row ∈ r.source_items, _ ∧ _ ∧ (_ → ∃ a ∈ r.artifacts, _ ∧ _)))

/-- An unchanged source is not tombstoned; a changed document with text misses the cache, and its
extraction is not empty. -/
def TurnServed (p : Platform) (b : Build) (s : SourceLoop) (fetched : NormalizedContent) : Prop :=
  (∀ row ∈ s.current.source_items, same_source fetched row = true →
      row.content_hash = fetched.content_hash → row.is_deleted = false) ∧
    (is_code_file fetched = false → is_unchanged s.current fetched = false → fetched.text ≠ "" →
      fetched.source.source_type = .git_metadata ∨
        cached_generation.lookup (upsert_source_item p s.current fetched).1 (generation_key p b fetched) =
          none ∧ b.extract fetched ≠ some [])

instance (p : Platform) (b : Build) (s : SourceLoop) (fetched : NormalizedContent) :
    Decidable (TurnServed p b s fetched) := inferInstanceAs (Decidable ((∀ row ∈ _, _ → _ → _) ∧ (_ → _)))

/-- Graphify finds something in every file with text, and the file's path stands for that file. -/
def RepoServed (b : Build) (_ : SourceLoop) (entry : String × List CodeUnit) : Prop :=
  ∀ result ∈ b.graphify_tree (entry.2.map fun unit => (unit.path, unit.fetched.text)),
    ∀ unit ∈ entry.2, unit.fetched.text ≠ "" →
      (∃ draft ∈ result.artifacts, path_of_code_key draft.key = unit.path) ∧
        ∃ unit' ∈ unit_at entry.2 unit.path, unit'.fetched.key = unit.fetched.key

instance (b : Build) (s : SourceLoop) (entry : String × List CodeUnit) : Decidable (RepoServed b s entry) :=
  inferInstanceAs (Decidable (∀ result ∈ _, ∀ unit ∈ entry.2, _ → (∃ draft ∈ _, _) ∧ ∃ unit' ∈ _, _))

/-- Each source is listed with one content, and its turn and its repo serve it. -/
structure SourcesServed (p : Platform) (r : Registry) (b : Build) : Prop where
  one : OneContent p b
  turns : Along (process_source p cached_generation b) (TurnServed p b) (.start (start_run p r b.kb_version))
    (b.turns p)
  repos : AlongM (graphify_one_repo p b) (RepoServed b) (source_loop p b (start_run p r b.kb_version))
    (b.repos (source_loop p b (start_run p r b.kb_version)))

instance (p : Platform) (r : Registry) (b : Build) : Decidable (SourcesServed p r b) :=
  decidable_of_iff (OneContent p b ∧ _ ∧ _)
    ⟨fun h => ⟨h.1, h.2.1, h.2.2⟩, fun h => ⟨h.one, h.turns, h.repos⟩⟩

/-- A live row with content owns a live artifact, one of version `n` if the row has changed. -/
def RowsServed (p : Platform) (n : Nat) (r : Registry) (changed : List Uuid) : Prop :=
  ∀ row ∈ r.source_items, row.is_deleted = false → row.content_hash ≠ p.content_hash "" →
    ∃ a ∈ r.artifacts, a.source_id = row.source_id ∧ a.Live ∧ a.artifact_type ≠ .alias_reference ∧
      (row.source_id ∈ changed → a.valid_from_seq = n)

section Artifacts

variable {p : Platform} {b : Build} {n : Nat}

theorem loopRule_rowsServed (hone : OneContent p b) :
    LoopRule p b n (TurnServed p b) (RepoServed b) (RowsServed p n) where
  touched htouch h row hrow hlive hhash := by
    obtain ⟨row₀, hrow₀, hk⟩ := htouch.origin hrow
    obtain ⟨a, ha, hid, hrest⟩ := h row₀ hrow₀ (hk.2.2.2.symm.trans hlive) (hk.2.2.1 ▸ hhash)
    exact ⟨a, htouch.artifacts ▸ ha, hid.trans hk.1.symm, hk.1 ▸ hrest⟩
  processed {s r' fetched id added} hloop h hok hmem hprose hchanged hprocessed hadded row hrow hlive hhash := by
    obtain ⟨row₁, hrow₁, hid₁, -, hhash₁, -⟩ := hprocessed.advanced.row
    rw [hprocessed.artifacts]
    by_cases hid : row.source_id = id
    · obtain rfl := hprocessed.wellFormed.source_eq hrow hrow₁ (hid.trans hid₁.symm)
      have htext : fetched.text ≠ "" := by
        intro hempty
        rw [hhash₁, content_hash_of_mem_turns hmem, hempty] at hhash
        exact hhash rfl
      obtain ⟨a, ha⟩ := List.exists_mem_of_ne_nil _ (hadded (hok.2 hprose hchanged htext))
      have hext := hprocessed.extracted a ha
      exact ⟨a, List.mem_append_right _ ha, hext.source_id.trans hid.symm, hext.introduced.2, hext.not_alias,
        fun _ => hext.introduced.1.trans hloop.current_build_seq⟩
    · obtain ⟨a, ha, hids, hl, htype, hn⟩ :=
        h row ((hprocessed.advanced.others row hid).1 hrow) hlive hhash
      refine ⟨a, List.mem_append_left _ ha, hids, hl, htype, fun hmem => hn ?_⟩
      exact (List.mem_append.1 hmem).resolve_right fun heq => hid (List.mem_singleton.1 heq)
  repo {s s' entry result rows added links} hwf hseq _ hlisted h hok hresult hw row hrow hlive hhash := by
    have hups := hw.upserted
    rw [hw.source_items] at hrow
    rw [hw.artifacts]
    by_cases hseen : row.source_id ∈ rows.2.2
    · obtain ⟨unit, hunit, row₁, hrow₁, hid₁, hsame⟩ := hups.seen_only _ hseen
      obtain rfl := hups.wellFormed.source_eq hrow₁ hrow hid₁
      obtain ⟨f, hf, hsamef, hhashf⟩ := hups.fromTurns hlisted hunit hrow₁ hsame
      have htext : unit.fetched.text ≠ "" := by
        intro hempty
        have hunitmem := (hlisted unit hunit).1
        rw [hhashf, ← hone.eq hunitmem hf hsame hsamef rfl, content_hash_of_mem_turns hunitmem, hempty] at hhash
        exact hhash rfl
      obtain ⟨⟨draft, hdraft, hpath⟩, unit', hat, hkey⟩ := hok result hresult unit hunit htext
      obtain ⟨row₂, hrow₂, hsame₂, hget⟩ := hups.by_path _ unit' hat
      rw [same_source_iff] at hsame hsame₂
      obtain rfl := hups.wellFormed.source_eq_of_key hrow₂ hrow₁ (hsame₂.trans (hkey.trans hsame.symm))
      obtain ⟨a, ha, hid⟩ := hw.covered draft hdraft (by rw [hpath, hat]; rfl) _ (hpath ▸ hget)
      obtain ⟨path, unit₁, -, -, -, hext⟩ := hw.extracted a ha
      exact ⟨a, List.mem_append_right _ ha, hid, hext.introduced.2, hext.not_alias,
        fun _ => hext.introduced.1.trans hseq⟩
    · rcases hups.origin row hrow with ⟨row₀, hrow₀, hk⟩ | hadv
      · obtain ⟨a, ha, hid, hl, htype, hn⟩ := h row₀ hrow₀ (hk.2.2.2.symm.trans hlive) (hk.2.2.1 ▸ hhash)
        refine ⟨a, List.mem_append_left _ ha, hid.trans hk.1.symm, hl, htype, fun hmem => hn ?_⟩
        exact hk.1 ▸ (List.mem_append.1 hmem).resolve_right hseen
      · exact absurd (hups.seen_of_advanced hrow hadv) hseen

end Artifacts

/-- The source has a live row with a listed content, under an id of interest. -/
def LiveRow (p : Platform) (b : Build) (r : Registry) (ids : Uuid → Prop) (fetched : NormalizedContent) :
    Prop :=
  ∃ row ∈ r.source_items, same_source fetched row = true ∧ row.is_deleted = false ∧ ids row.source_id ∧
    FromTurns p b row

section Rows

variable {p : Platform} {b : Build} {n : Nat} {r r' : Registry} {ids ids' : Uuid → Prop}
  {fetched : NormalizedContent}

theorem LiveRow.next (h : LiveRow p b r ids fetched) (hkeeps : KeepsListed p b r r')
    (hids : ∀ id, ids id → ids' id) : LiveRow p b r' ids' fetched := by
  obtain ⟨row, hrow, hsame, hlive, hid, hlisted⟩ := h
  obtain ⟨row', hrow', hk⟩ := hkeeps row hrow hlisted
  rw [same_source_iff] at hsame
  exact ⟨row', hrow', same_source_iff.2 (hk.key.trans hsame), hk.live hlive, hids _ (hk.source_id.symm ▸ hid),
    hk.listed⟩

/-- What the loop has made of the sources it has taken in. -/
structure TurnsDone (p : Platform) (b : Build) (done : List NormalizedContent) (s : SourceLoop) : Prop where
  sources : ∀ f ∈ done, f ∈ s.failed ∨ LiveRow p b s.current (· ∈ s.seen) f ∨
    ∃ unit ∈ s.code_units, unit.fetched = f
  units : ∀ unit ∈ s.code_units, unit.changed = false → LiveRow p b s.current (fun _ => True) unit.fetched
  changed : s.any_code_changed = s.code_units.any (·.changed)

/-- The rows persist, and the lists of the loop only grow. -/
private theorem TurnsDone.grow {done : List NormalizedContent} {s s' : SourceLoop}
    (h : TurnsDone p b done s) (hkeeps : KeepsListed p b s.current s'.current)
    (hfailed : ∀ f ∈ s.failed, f ∈ s'.failed) (hseen : ∀ id ∈ s.seen, id ∈ s'.seen)
    (hunits : s'.code_units = s.code_units) (hchanged : s'.any_code_changed = s.any_code_changed) :
    TurnsDone p b done s' := by
  refine ⟨fun f hf => ?_, fun unit hunit hunchanged => ?_, ?_⟩
  · rw [hunits]
    exact (h.sources f hf).imp (hfailed f) (Or.imp_left fun hl => hl.next hkeeps hseen)
  · exact (h.units unit (hunits ▸ hunit) hunchanged).next hkeeps fun _ hid => hid
  · rw [hunits, hchanged, h.changed]

private theorem TurnsDone.take {done : List NormalizedContent} {s : SourceLoop} (h : TurnsDone p b done s)
    (hf : fetched ∈ s.failed ∨ LiveRow p b s.current (· ∈ s.seen) fetched ∨
      ∃ unit ∈ s.code_units, unit.fetched = fetched) : TurnsDone p b (done ++ [fetched]) s := by
  refine ⟨fun f hmem => ?_, h.units, h.changed⟩
  rcases List.mem_append.1 hmem with hmem | hmem
  · exact h.sources f hmem
  · exact List.mem_singleton.1 hmem ▸ hf

/-- One turn: the source fails, or its row is live and seen, or it is put aside. -/
private theorem turnsDone_turn {done : List NormalizedContent} {s s' : SourceLoop} (hone : OneContent p b)
    (hloop : LoopWellFormed p n s) (h : TurnsDone p b done s) (hmem : fetched ∈ b.turns p)
    (hok : TurnServed p b s fetched) (hturn : Turn p b s fetched s') : TurnsDone p b (done ++ [fetched]) s' := by
  cases hturn with
  | collected unit hcode hunit hrepo hchanged =>
    have hnew : unit.changed = false → LiveRow p b s.current (fun _ => True) unit.fetched := by
      intro hunchanged
      rw [hchanged, Bool.not_eq_false'] at hunchanged
      obtain ⟨row, hfound, hhash⟩ := is_unchanged_eq_true hunchanged
      obtain ⟨hrow, hsame⟩ := source_row_eq_some hfound
      rw [hunit]
      exact ⟨row, hrow, hsame, hok.1 row hrow hsame hhash, trivial, fetched, hmem, hsame, hhash⟩
    refine ⟨fun f hf => ?_, fun u hu hunchanged => ?_, ?_⟩
    · rcases List.mem_append.1 hf with hf | hf
      · refine (h.sources f hf).imp_right (Or.imp_right ?_)
        rintro ⟨u, hu, hfu⟩
        exact ⟨u, List.mem_append_left _ hu, hfu⟩
      · exact .inr (.inr ⟨unit, List.mem_append_right _ List.mem_cons_self,
          hunit.trans (List.mem_singleton.1 hf).symm⟩)
    · rcases List.mem_append.1 hu with hu | hu
      · exact h.units u hu hunchanged
      · obtain rfl := List.mem_singleton.1 hu
        exact hnew hunchanged
    · simp [h.changed]
  | unchanged r row hrow hsame hhash htouch =>
    have hrowlive : LiveRow p b s.current (· ∈ s.seen ++ [row.source_id]) fetched :=
      ⟨row, hrow, hsame, hok.1 row hrow hsame hhash, by simp, fetched, hmem, hsame, hhash⟩
    refine TurnsDone.take (h.grow htouch.keepsListed (fun _ hf => hf)
      (fun _ hid => List.mem_append_left _ hid) rfl rfl) (.inr (.inl ?_))
    exact hrowlive.next htouch.keepsListed fun _ hid => hid
  | processed r id added hprose hchanged hprocessed hadded =>
    obtain ⟨row, hrow, hid, hsame, hhash, hlive⟩ := hprocessed.advanced.row
    refine TurnsDone.take (h.grow (hprocessed.keepsListed hone hmem) (fun _ hf => hf)
      (fun _ hid => List.mem_append_left _ hid) rfl rfl) (.inr (.inl ?_))
    exact ⟨row, hrow, hsame, hlive, by simp [hid], fetched, hmem, hsame, hhash⟩
  | failed committed current seen hcommitted hcurrent =>
    have hkeeps : KeepsListed p b s.current current := by
      intro row hrow hlisted
      obtain ⟨row₀, hrow₀, hk₀⟩ := hloop.touched.keepsListed_back row hrow hlisted
      obtain ⟨row', hrow', hk⟩ := (hcommitted.trans hcurrent).keepsListed row₀ hrow₀ hk₀.listed
      exact ⟨row', hrow', hk.source_id.trans hk₀.source_id, hk.key.trans hk₀.key, hk.listed,
        hk.content_hash.trans hk₀.content_hash, fun hlive => hk.live (hk₀.live hlive)⟩
    exact TurnsDone.take (h.grow hkeeps (fun _ hf => List.mem_append_left _ hf)
      (fun _ hid => List.mem_append_left _ hid) rfl rfl) (.inl (List.mem_append_right _ List.mem_cons_self))

/-- The source loop, and what else holds of it. -/
private theorem turnsDone_source_loop (hwf : WellFormed p r) (hinj : Function.Injective p.gen_random_uuid)
    (hone : OneContent p b)
    (hturns : Along (process_source p cached_generation b) (TurnServed p b) (.start r) (b.turns p)) :
    Turning p b r.build_seq (fun _ _ => True) (source_loop p b r) ∧
      TurnsDone p b (b.turns p) (source_loop p b r) := by
  have rule : LoopRule p b r.build_seq (TurnServed p b) (fun _ _ => True) fun _ _ => True := loopRule_true
  refine hturns.prefix_invariant (I := fun done s => Turning p b r.build_seq (fun _ _ => True) s ∧
    TurnsDone p b done s) ?_ ⟨⟨.start hwf, by simp [UnitsListed, SourceLoop.start], rfl, trivial, trivial⟩, ?_⟩
  · rintro done s fetched hmem ⟨hturning, hdone⟩ hok
    have hturn := process_source_turn (b := b) hturning.loop.current hinj fetched
    exact ⟨turning_turn rule hturning hmem hok hturn,
      turnsDone_turn hone hturning.loop hdone hmem hok hturn⟩
  · exact ⟨by simp, by simp [SourceLoop.start], rfl⟩

/-- What the whole-tree pass has made of the repos it has taken in. -/
private structure ReposDone (p : Platform) (b : Build) (n : Nat) (units : List CodeUnit)
    (done : List (String × List CodeUnit)) (s : SourceLoop) : Prop where
  rewriting : Rewriting p b n (fun _ _ => True) units s
  turns : TurnsDone p b (b.turns p) { s with code_units := units }
  repos : ∀ entry ∈ done, ∀ unit ∈ entry.2,
    unit.fetched ∈ s.failed ∨ LiveRow p b s.current (· ∈ s.seen) unit.fetched

/-- One repo: it fails, or the rows of its files are live and seen. -/
private theorem reposDone_repo (hinj : Function.Injective p.gen_random_uuid) (hone : OneContent p b)
    {units : List CodeUnit} {done : List (String × List CodeUnit)} {entry : String × List CodeUnit}
    {s s' : SourceLoop} (hsub : ∀ unit ∈ entry.2, unit ∈ units) (h : ReposDone p b n units done s)
    (hstep : graphify_one_repo p b s entry = some s') : ReposDone p b n units (done ++ [entry]) s' := by
  have hrule : LoopRule p b n (fun _ _ => True) (fun _ _ => True) fun _ _ => True := loopRule_true
  have hrewriting : Rewriting p b n (fun _ _ => True) units s' :=
    rewriting_repo hrule hinj h.rewriting hsub trivial hstep
  rcases graphify_one_repo_spec h.rewriting.wellFormed hinj
      (fun unit hu => h.rewriting.rows unit (hsub unit hu)) hstep with
    ⟨-, rfl⟩ | ⟨result, rows, added, links, -, hw⟩
  · have hfailed : ∀ f ∈ s.failed, f ∈ s.failed ++ entry.2.map (·.fetched) := fun _ hf =>
      List.mem_append_left _ hf
    refine ⟨hrewriting, ⟨fun f hf => (h.turns.sources f hf).imp_left (hfailed f), h.turns.units,
      h.turns.changed⟩, fun e he unit hunit => ?_⟩
    rcases List.mem_append.1 he with he | he
    · exact (h.repos e he unit hunit).imp_left (hfailed _)
    · obtain rfl := List.mem_singleton.1 he
      exact .inl (List.mem_append_right _ (List.mem_map_of_mem hunit))
  · have hups := hw.upserted
    have hkeeps : KeepsListed p b s.current s'.current := by
      unfold KeepsListed
      rw [hw.source_items]
      exact hups.keepsListed h.rewriting.wellFormed hone fun unit hu => h.rewriting.listed unit (hsub unit hu)
    have hgathered := hw.gathered
    have hfailed : s'.failed = s.failed := by rw [hgathered]
    have hseen : s'.seen = s.seen ++ rows.2.2 := by rw [hgathered]
    have hgrow : ∀ id ∈ s.seen, id ∈ s'.seen := fun id hid => hseen ▸ List.mem_append_left _ hid
    have hcode : s'.any_code_changed = s.any_code_changed := by rw [hgathered]
    refine ⟨hrewriting, h.turns.grow hkeeps (fun f hf => hfailed.symm ▸ hf) hgrow rfl hcode,
      fun e he unit hunit => ?_⟩
    rcases List.mem_append.1 he with he | he
    · exact (h.repos e he unit hunit).imp (fun hf => hfailed.symm ▸ hf) fun hl => hl.next hkeeps hgrow
    · obtain rfl := List.mem_singleton.1 he
      obtain ⟨row, hrow, hsame, hid⟩ := hups.seen unit hunit
      have hfrom := hups.fromTurns (fun u hu => h.rewriting.listed u (hsub u hu)) hunit hrow hsame
      have hlive : row.is_deleted = false := by
        cases hchanged : unit.changed with
        | true =>
          obtain ⟨-, -, -, -, -, hlive⟩ := hups.advanced unit hunit hchanged row hrow hsame
          exact hlive
        | false =>
          obtain ⟨row', hrow', hsame', hlive, -⟩ := (h.turns.units unit (hsub unit hunit) hchanged).next
            hkeeps fun _ _ => trivial
          rw [hw.source_items] at hrow'
          rw [same_source_iff] at hsame hsame'
          exact hups.wellFormed.source_eq_of_key hrow' hrow (hsame'.trans hsame.symm) ▸ hlive
      exact .inr ⟨row, hw.source_items ▸ hrow, hsame, hlive, hseen ▸ List.mem_append_right _ hid, hfrom⟩

/-- Once the loop is over, every listed source has failed, or its row is live and seen. -/
theorem sources_done (hwf : WellFormed p r) (hinj : Function.Injective p.gen_random_uuid)
    (hone : OneContent p b)
    (hturns : Along (process_source p cached_generation b) (TurnServed p b) (.start r) (b.turns p))
    {s : SourceLoop} (h : process_sources p cached_generation b r = .ok s) :
    ∀ f ∈ b.turns p, f ∈ s.failed ∨ LiveRow p b s.current (· ∈ s.seen) f := by
  obtain ⟨hturning, hdone⟩ := turnsDone_source_loop hwf hinj hone hturns
  have hend := process_sources_end p b r
  rw [h] at hend
  cases hend with
  | kept hcode =>
    obtain ⟨r', ids, heq, htouch, hseen⟩ :=
      touch_units_spec hturning.loop.current (source_loop p b r).code_units
    rw [heq]
    intro f hf
    refine (hdone.sources f hf).imp_right ?_
    rintro (hlive | ⟨unit, hunit, rfl⟩)
    · exact hlive.next htouch.keepsListed fun id hid => List.mem_append_left _ hid
    · have hunchanged : unit.changed = false := by
        rw [hdone.changed, List.any_eq_false] at hcode
        simpa using hcode unit hunit
      obtain ⟨row, hrow, hsame, hlive, -, hfrom⟩ := hdone.units unit hunit hunchanged
      have hrowlive : LiveRow p b (source_loop p b r).current (· ∈ (source_loop p b r).seen ++ ids)
          unit.fetched :=
        ⟨row, hrow, hsame, hlive, List.mem_append_right _ (hseen unit hunit row hrow hsame), hfrom⟩
      exact hrowlive.next htouch.keepsListed fun _ hid => hid
  | rewritten s' hcode hrepos hrun =>
    have hdone' : ReposDone p b r.build_seq (source_loop p b r).code_units (b.repos (source_loop p b r)) s' := by
      refine foldlM_prefix_invariant
        (I := ReposDone p b r.build_seq (source_loop p b r).code_units) ?_ ?_ hrun
      · intro done s entry s' hentry hs hstep
        rw [hrepos] at hentry
        exact reposDone_repo hinj hone (fun unit hu => (mem_units_by_repo hentry unit hu).1) hs hstep
      · exact ⟨⟨hturning.loop.current, hturning.loop.current_build_seq, by simp [KeysLive, hturning.keys],
          hturning.loop.current_rows, hturning.listed, trivial⟩, hdone, by simp⟩
    have hcommit : KeepsListed p b s'.current s'.commit.current :=
      (OnlyTouched.of_sameCore (sameCore_commit s'.current)).keepsListed
    intro f hf
    rcases hdone'.turns.sources f hf with hfailed | hlive | ⟨unit, hunit, rfl⟩
    · exact .inl hfailed
    · exact .inr (hlive.next hcommit fun _ hid => hid)
    · obtain ⟨entry, hentry, hmem⟩ := exists_units_by_repo hunit
      rw [← hrepos] at hentry
      exact (hdone'.repos entry hentry unit hmem).imp_right fun hl => hl.next hcommit fun _ hid => hid

end Rows

section Builds

variable {p : Platform} {b : Build} {r : Registry}

/-- A live row with content keeps a live artifact through the finalisation: what leaves belongs to a
tombstoned source, or is the prior generation of a changed one. -/
private theorem rowsServed_finalized {s : SourceLoop} {started_at : Timestamp} {passes : Finalized}
    (hwf : WellFormed p s.current) (hinj : Function.Injective p.gen_random_uuid)
    (hserved : RowsServed p s.current.build_seq s.current s.changed)
    (hfinal : Finalizes p b s.current s.seen s.changed started_at passes) :
    RowsServed p s.current.build_seq passes.mined [] := by
  have hinvalidates := hfinal.invalidates hwf
  have hjudged := hfinal.onlyEdges_judged
  have hmined := hfinal.onlyAliases_mined hwf hinj
  set vanished := vanished_live_sources passes.judged s.seen started_at with hvanished
  intro row' hrow' hlive hhash
  rw [hmined.source_items] at hrow'
  obtain ⟨row, hrow, hk⟩ := (hinvalidates.source_items.origin hrow').resolve_right False.elim
  rw [hjudged.source_items] at hrow
  obtain ⟨hlive, hkept⟩ := hk.live_iff.1 hlive
  obtain rfl := hk.eq_of_not_mem hkept
  simp only [tombstoned_sources, List.mem_append, List.mem_map, not_or, not_exists, not_and] at hkept
  obtain ⟨a, ha, hid, halive, htype, hn⟩ := hserved row' hrow hlive hhash
  rw [← hjudged.artifacts] at ha
  obtain ⟨a', ha', hka⟩ := hinvalidates.artifacts.successor ha
  refine ⟨a', (hmined.mem_iff (hka.same.artifact_type.trans_ne htype)).2 ha', hka.same.source_id.trans hid,
    hka.live_iff.2 ⟨halive, ?_⟩, hka.same.artifact_type.trans_ne htype, by simp⟩
  rintro (⟨rename, hrename, hold⟩ | hswept | ⟨hchanged, hlt⟩)
  · obtain ⟨a₀, ha₀, -, hid₀, hsource⟩ := (isRename_of_mem hrename).old
    obtain rfl := (hjudged.wellFormed hwf).artifact_eq ha ha₀ (hold.trans hid₀.symm)
    exact hkept.1 rename hrename (hsource.symm.trans hid)
  · exact hkept.2 (hid ▸ hswept)
  · rw [hn (hid ▸ hchanged), hjudged.build_seq] at hlt
    exact Nat.lt_irrefl _ hlt

/-- Any build that serves its sources serves every live row. -/
private theorem rowsServed_next (hwf : WellFormed p r) (hinj : Function.Injective p.gen_random_uuid)
    (hserved : RowsServed p r.build_seq r []) (hok : SourcesServed p r b) :
    RowsServed p (r.build_seq + 1) (next p cached_generation r b) [] := by
  have hstart : RowsServed p (r.build_seq + 1) (start_run p r b.kb_version) [] := by
    intro row hrow hlive hhash
    obtain ⟨a, ha, hid, halive, htype, -⟩ := hserved row hrow hlive hhash
    exact ⟨a, ha, hid, halive, htype, by simp⟩
  have hgood := run_rule (loopRule_rowsServed hok.one) hwf hinj hstart hok.turns hok.repos
  cases run_end p r b with
  | failed hsources hpasses hsame =>
    intro row hrow hlive hhash
    obtain ⟨a, ha, hid, halive, htype, -⟩ := hgood.committed row (hsame.source_items ▸ hrow) hlive hhash
    exact ⟨a, hsame.artifacts ▸ ha, hid, halive, htype, by simp⟩
  | completed passes hsources hpasses hfinal hsame =>
    have hmined := rowsServed_finalized hgood.current_wellFormed hinj
      (hgood.current_seq.symm ▸ hgood.current) hfinal
    rw [hgood.current_seq] at hmined
    intro row hrow hlive hhash
    obtain ⟨a, ha, hrest⟩ := hmined row (hsame.source_items ▸ hrow) hlive hhash
    exact ⟨a, hsame.artifacts ▸ ha, hrest⟩

/-- What a completed build has listed is live afterwards: its row was seen. -/
private theorem liveRow_next (hwf : WellFormed p r) (hinj : Function.Injective p.gen_random_uuid)
    (hok : SourcesServed p r b) (hcompletes : (run p cached_generation r b).finalized.isSome = true)
    {fetched : NormalizedContent} (hlisted : fetched ∈ b.listing.map p.fetch)
    (hnotfailed : fetched ∉ (run p cached_generation r b).sources.failed) :
    LiveRow p b (next p cached_generation r b) (fun _ => True) fetched ∧ fetched ∈ b.turns p := by
  have hgood := sourcesGood_run (b := b) hwf hinj
  cases run_end p r b with
  | failed hsources hpasses hsame => simp [hpasses] at hcompletes
  | completed passes hsources hpasses hfinal hsame =>
    have hmem : fetched ∈ b.turns p := turns_of_process_sources hsources ▸ hlisted
    obtain ⟨row, hrow, hsamerow, hlive, hseen, hfrom⟩ :=
      (sources_done (wellFormed_start_run hwf) hinj hok.one hok.turns hsources fetched hmem).resolve_left
        hnotfailed
    have hinvalidates := hfinal.invalidates hgood.current_wellFormed
    obtain ⟨row', hrow', hk⟩ := hinvalidates.source_items.successor (hfinal.onlyEdges_judged.source_items ▸ hrow)
    have hkept : row' = row := hk.eq_of_not_mem fun hid =>
      not_seen_of_mem_vanished (vanished_of_mem_tombstoned hid) hseen
    rw [hkept, ← (hfinal.onlyAliases_mined hgood.current_wellFormed hinj).source_items,
      ← hsame.source_items] at hrow'
    exact ⟨⟨row, hrow', hsamerow, hlive, trivial, hfrom⟩, hmem⟩

/-- Over builds that serve their sources, the last of which completes: every source it lists without a
failure is live and, if it has text, served. -/
theorem listedServed_history (hinj : Function.Injective p.gen_random_uuid)
    (hempty : ∀ text, p.content_hash text = p.content_hash "" → text = "") (builds : List Build) (b : Build)
    (hserved : Along (next p cached_generation) (SourcesServed p) Registry.empty (builds ++ [b]))
    (hcompletes : (run p cached_generation (history p cached_generation builds) b).finalized.isSome = true) :
    ∀ fetched ∈ b.listing.map p.fetch,
      fetched ∉ (run p cached_generation (history p cached_generation builds) b).sources.failed →
      ListedServed (history p cached_generation (builds ++ [b]))
        (history p cached_generation (builds ++ [b])).build_seq fetched := by
  intro fetched hlisted hnotfailed
  obtain ⟨hbefore, hlast⟩ := (along_append _ _).1 hserved
  have hinv : WellFormed p (history p cached_generation builds) ∧ RowsServed p
      (history p cached_generation builds).build_seq (history p cached_generation builds) [] := by
    refine Along.invariant (I := fun r => WellFormed p r ∧ RowsServed p r.build_seq r []) ?_
      ⟨wellFormed_empty p, by simp [RowsServed, Registry.empty]⟩ hbefore
    rintro r b - ⟨hwf, hr⟩ hok
    have hnext := wellFormed_next (b := b) hwf hinj
    exact ⟨hnext.1, hnext.2.symm ▸ rowsServed_next hwf hinj hr hok⟩
  have hok : SourcesServed p (history p cached_generation builds) b := hlast.1
  have hrows := rowsServed_next hinv.1 hinj hinv.2 hok
  obtain ⟨hrow, hmem⟩ := liveRow_next hinv.1 hinj hok hcompletes hlisted hnotfailed
  simp only [history, List.foldl_append, List.foldl_cons, List.foldl_nil] at hrow hrows ⊢
  obtain ⟨row, hrow, hsame, hlive, -, f, hf, hsamef, hhash⟩ := hrow
  refine ⟨row, hrow, hsame, hlive, fun htext => ?_⟩
  have hcontent : row.content_hash ≠ p.content_hash "" := by
    rw [hhash, ← hok.one.eq hmem hf hsame hsamef rfl, content_hash_of_mem_turns hmem]
    exact fun heq => htext (hempty _ heq)
  obtain ⟨a, ha, hid, halive, -⟩ := hrows row hrow hlive hcontent
  refine ⟨a, ha, hid, ?_⟩
  exact ((wellFormed_next hinv.1 hinj).1.artifacts_stamped a ha).memberAt_iff_live.2 halive

/-- A page comes in with the build that changes another one. -/
theorem listedServed_two_pages :
    ListedServed (history .plain cached_generation
        ([page_build [("d", "A")]] ++ [page_build [("d", "B"), ("e", "C")]]))
      (history .plain cached_generation
        ([page_build [("d", "A")]] ++ [page_build [("d", "B"), ("e", "C")]])).build_seq
      (Platform.plain.fetch (.page "e", "C")) := by
  have hnone : (run .plain cached_generation (history .plain cached_generation [page_build [("d", "A")]])
      (page_build [("d", "B"), ("e", "C")])).sources.failed = [] := by decide +kernel
  exact listedServed_history (fun _ _ h => h) (fun _ h => h) [page_build [("d", "A")]]
    (page_build [("d", "B"), ("e", "C")]) (by decide +kernel) (by decide +kernel) _ (by decide +kernel)
    (by simp [hnone])

/-- A page is delisted, which tombstones it, and listed again with the text it had: it is unchanged to
the build, and nothing clears the tombstone. -/
theorem relisted_page_stays_deleted :
    AllComplete .plain [page_build [("d", "A")], page_build [], page_build [("d", "A")]] ∧
      (run .plain cached_generation (history .plain cached_generation
        [page_build [("d", "A")], page_build []]) (page_build [("d", "A")])).sources.failed = [] ∧
      ¬ ∀ fetched ∈ (page_build [("d", "A")]).listing.map Platform.plain.fetch,
        ListedServed (history .plain cached_generation
            [page_build [("d", "A")], page_build [], page_build [("d", "A")]])
          (history .plain cached_generation
            [page_build [("d", "A")], page_build [], page_build [("d", "A")]]).build_seq fetched := by
  decide +kernel

end Builds

end AgenticKb

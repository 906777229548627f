import AgenticKb.Effects.Build

open AgenticKb.Lib

namespace AgenticKb

/-- Version `n` serves an extracted artifact only if it was made from its source's content. -/
def OneGeneration (r : Registry) (n : Nat) : Prop :=
  ∀ a ∈ r.artifacts, a.artifact_type ≠ .alias_reference → a.MemberAt n →
    ∀ s ∈ r.source_items, s.source_id = a.source_id → a.made_from = some s.content_hash

instance (r : Registry) (n : Nat) : Decidable (OneGeneration r n) :=
  inferInstanceAs (Decidable (∀ a ∈ r.artifacts, _ → _ → ∀ s ∈ r.source_items, _ → _))

/-- An extracted artifact whose source has moved on without it. -/
def Stale (r : Registry) (a : KnowledgeArtifact) : Prop :=
  a.artifact_type ≠ .alias_reference ∧
    ∃ s ∈ r.source_items, s.source_id = a.source_id ∧ a.made_from ≠ some s.content_hash

instance (r : Registry) (a : KnowledgeArtifact) : Decidable (Stale r a) :=
  inferInstanceAs (Decidable (_ ∧ ∃ s ∈ r.source_items, _ ∧ _))

/-- The build sweeps what failed builds left behind: the source of every live stale artifact changes
again, or leaves. -/
def StaleSwept (p : Platform) (r : Registry) (b : Build) : Prop :=
  ∀ passes ∈ (run p cached_generation r b).finalized, ∀ a ∈ r.artifacts, a.Live → Stale r a →
    Swept passes.judged (r.build_seq + 1)
      (vanished_live_sources passes.judged (run p cached_generation r b).sources.seen r.now)
      (run p cached_generation r b).sources.changed a

instance (p : Platform) (r : Registry) (b : Build) : Decidable (StaleSwept p r b) :=
  inferInstanceAs (Decidable (∀ passes ∈ _, ∀ a ∈ r.artifacts, _ → _ → _))

/-- In the source loop of build `n`, which started at `r₀`: what is not made from its source's content
is an earlier version's, and its source has changed, or it was stale before. -/
private structure GenerationsYet (p : Platform) (b : Build) (r₀ : Registry) (n : Nat) (r : Registry)
    (changed : List Uuid) : Prop where
  current : ∀ a ∈ r.artifacts, a.Live → a.artifact_type ≠ .alias_reference →
    ∀ s ∈ r.source_items, s.source_id = a.source_id →
      a.made_from = some s.content_hash ∨ a.valid_from_seq < n ∧ (a.source_id ∈ changed ∨ Stale r₀ a)
  /-- What the build has written hangs on a listed row. -/
  written : ∀ a ∈ r.artifacts, a.artifact_type ≠ .alias_reference → ¬ a.valid_from_seq < n →
    a.Live ∧ ∃ s ∈ r.source_items, s.source_id = a.source_id ∧ FromTurns p b s
  before : ∀ a ∈ r.artifacts, a.valid_from_seq < n → a ∈ r₀.artifacts

section Loop

variable {p : Platform} {b : Build} {r₀ r r' : Registry} {n : Nat} {changed : List Uuid}

/-- An artifact of this build stays made from its source's content, as the source keeps it. -/
private theorem GenerationsYet.made_from (h : GenerationsYet p b r₀ n r changed) (hwf : WellFormed p r')
    (hkeeps : KeepsListed p b r r') {a : KnowledgeArtifact} (ha : a ∈ r.artifacts)
    (htype : a.artifact_type ≠ .alias_reference) (hn : ¬ a.valid_from_seq < n) :
    a.Live ∧ ∃ s ∈ r'.source_items, s.source_id = a.source_id ∧ FromTurns p b s ∧
      ∀ s' ∈ r'.source_items, s'.source_id = a.source_id → a.made_from = some s'.content_hash := by
  obtain ⟨hlive, s, hs, hid, hlisted⟩ := h.written a ha htype hn
  have hmade := (h.current a ha hlive htype s hs hid).resolve_right fun hold => hn hold.1
  obtain ⟨s', hs', hk⟩ := hkeeps s hs hlisted
  refine ⟨hlive, s', hs', hk.source_id.trans hid, hk.listed, fun s'' hs'' hid'' => ?_⟩
  rw [hwf.source_eq hs'' hs' (hid''.trans (hk.source_id.trans hid).symm), hk.content_hash, hmade]

private theorem loopRule_generations (hone : OneContent p b) :
    LoopRule p b n (fun _ _ => True) (fun _ _ => True) (GenerationsYet p b r₀ n) where
  touched {r r' changed} htouch h := by
    refine ⟨fun a ha hlive htype s hs hid => ?_, fun a ha htype hn => ?_,
      fun a ha => h.before a (htouch.artifacts ▸ ha)⟩
    · obtain ⟨s₀, hs₀, hk⟩ := htouch.origin hs
      rw [hk.2.2.1]
      exact h.current a (htouch.artifacts ▸ ha) hlive htype s₀ hs₀ (hk.1.symm.trans hid)
    · obtain ⟨hlive, s, hs, hid, hlisted⟩ := h.written a (htouch.artifacts ▸ ha) htype hn
      obtain ⟨s', hs', hk⟩ := htouch.keepsListed s hs hlisted
      exact ⟨hlive, s', hs', hk.source_id.trans hid, hk.listed⟩
  processed {s r' fetched id added} hloop h _ hmem _ _ hprocessed _ := by
    obtain ⟨row, hrow, hid, hsame, hhash, -⟩ := hprocessed.advanced.row
    have hlistedrow : FromTurns p b row := ⟨fetched, hmem, hsame, hhash⟩
    have hkeeps := hprocessed.keepsListed hone hmem
    have hadded : ∀ a ∈ added, a.valid_from_seq = n := fun a ha =>
      (hprocessed.extracted a ha).introduced.1.trans hloop.current_build_seq
    refine ⟨fun a ha hlive htype s' hs' hids => ?_, fun a ha htype hn => ?_, fun a ha hn => ?_⟩
    all_goals rw [hprocessed.artifacts] at ha
    · rcases List.mem_append.1 ha with ha | ha
      · by_cases hn : a.valid_from_seq < n
        · by_cases hrowid : s'.source_id = id
          · exact .inr ⟨hn, .inl (List.mem_append_right _ (by simp [← hids, hrowid]))⟩
          · exact (h.current a ha hlive htype s' ((hprocessed.advanced.others s' hrowid).1 hs') hids).imp_right
              fun hold => ⟨hold.1, hold.2.imp_left (List.mem_append_left _)⟩
        · obtain ⟨-, -, -, -, -, hmade⟩ := h.made_from hprocessed.wellFormed hkeeps ha htype hn
          exact .inl (hmade s' hs' hids)
      · have hext := hprocessed.extracted a ha
        rw [hprocessed.wellFormed.source_eq hs' hrow (hids.trans (hext.source_id.trans hid.symm)), hhash]
        exact .inl hext.made_from
    · rcases List.mem_append.1 ha with ha | ha
      · obtain ⟨hlive, s', hs', hids, hlisted', -⟩ := h.made_from hprocessed.wellFormed hkeeps ha htype hn
        exact ⟨hlive, s', hs', hids, hlisted'⟩
      · have hext := hprocessed.extracted a ha
        exact ⟨hext.introduced.2, row, hrow, hid.trans hext.source_id.symm, hlistedrow⟩
    · rcases List.mem_append.1 ha with ha | ha
      · exact h.before a ha hn
      · exact absurd hn (hadded a ha ▸ Nat.lt_irrefl n)
  repo {s s' entry result rows added links} hwf hseq _ hlisted h _ _ hw := by
    have hups := hw.upserted
    have hkeeps := hups.keepsListed hwf hone hlisted
    have hadded : ∀ a ∈ added, a.valid_from_seq = n ∧ a.Live ∧ ∃ unit ∈ entry.2,
        a.made_from = some unit.fetched.content_hash ∧ ∃ row ∈ rows.1.source_items,
          row.source_id = a.source_id ∧ same_source unit.fetched row = true := by
      intro a ha
      obtain ⟨path, unit, hat, hget, -, hext⟩ := hw.extracted a ha
      obtain ⟨row, hrow, hsame, hget'⟩ := hups.by_path path unit hat
      exact ⟨hext.introduced.1.trans hseq, hext.introduced.2, unit,
        List.mem_reverse.1 (List.mem_of_find?_eq_some hat), hext.made_from, row, hrow,
        Option.some.inj (hget'.symm.trans hget), hsame⟩
    refine ⟨fun a ha hlive htype s₁ hs₁ hids => ?_, fun a ha htype hn => ?_, fun a ha hn => ?_⟩
    all_goals rw [hw.artifacts] at ha
    · rw [hw.source_items] at hs₁
      rcases List.mem_append.1 ha with ha | ha
      · by_cases hn : a.valid_from_seq < n
        · rcases hups.origin s₁ hs₁ with ⟨s₀, hs₀, hk⟩ | hadv
          · rw [hk.2.2.1]
            exact (h.current a ha hlive htype s₀ hs₀ (hk.1.symm.trans hids)).imp_right
              fun hold => ⟨hold.1, hold.2.imp_left (List.mem_append_left _)⟩
          · exact .inr ⟨hn, .inl (List.mem_append_right _ (hids ▸ hups.seen_of_advanced hs₁ hadv))⟩
        · obtain ⟨-, -, -, -, -, hmade⟩ := h.made_from hups.wellFormed hkeeps ha htype hn
          exact .inl (hmade s₁ hs₁ hids)
      · obtain ⟨-, -, unit, hunit, hmade, row, hrow, hid, hsame⟩ := hadded a ha
        obtain ⟨f, hf, hsame', hhash⟩ := hups.fromTurns hlisted hunit hrow hsame
        rw [hups.wellFormed.source_eq hs₁ hrow (hids.trans hid.symm), hmade, hhash,
          hone.eq (hlisted unit hunit).1 hf hsame hsame' rfl]
        exact .inl rfl
    · rw [hw.source_items]
      rcases List.mem_append.1 ha with ha | ha
      · obtain ⟨hlive, s₁, hs₁, hids, hlisted', -⟩ := h.made_from hups.wellFormed hkeeps ha htype hn
        exact ⟨hlive, s₁, hs₁, hids, hlisted'⟩
      · obtain ⟨-, hlive, unit, hunit, -, row, hrow, hid, hsame⟩ := hadded a ha
        exact ⟨hlive, row, hrow, hid, hups.fromTurns hlisted hunit hrow hsame⟩
    · rcases List.mem_append.1 ha with ha | ha
      · exact h.before a ha hn
      · exact absurd hn ((hadded a ha).1 ▸ Nat.lt_irrefl n)

end Loop

section Builds

variable {p : Platform} {b : Build} {r : Registry}

/-- A completed build that sweeps what was stale before leaves one generation of each source. -/
theorem oneGeneration_next (hwf : WellFormed p r) (hinj : Function.Injective p.gen_random_uuid)
    (hcompletes : (run p cached_generation r b).finalized.isSome = true) (hone : OneContent p b)
    (hstale : StaleSwept p r b) :
    OneGeneration (next p cached_generation r b) (next p cached_generation r b).build_seq := by
  have hstart : GenerationsYet p b r (r.build_seq + 1) (start_run p r b.kb_version) [] := by
    have hold : ∀ a ∈ r.artifacts, a.valid_from_seq < r.build_seq + 1 := fun a ha =>
      Nat.lt_succ_of_le (hwf.artifacts_stamped a ha).1
    refine ⟨fun a ha _ htype s hs hid => ?_, fun a ha _ hn => absurd (hold a ha) hn, fun a ha _ => ha⟩
    by_cases hmade : a.made_from = some s.content_hash
    · exact .inl hmade
    · exact .inr ⟨hold a ha, .inr ⟨htype, s, hs, hid, hmade⟩⟩
  have hgood := run_rule_of_any (loopRule_generations hone) hwf hinj hstart
  have hwf' := wellFormed_next (b := b) hwf hinj
  cases run_end p r b with
  | failed hsources hpasses hsame => simp [hpasses] at hcompletes
  | completed passes hsources hpasses hfinal hsame =>
    intro a ha htype hmember s hs hid
    have hlive := (hwf'.1.artifacts_stamped a ha).memberAt_iff_live.1 hmember
    have hmined := hfinal.onlyAliases_mined hgood.current_wellFormed hinj
    have hjudged := hfinal.onlyEdges_judged
    have hinvalidates := hfinal.invalidates hgood.current_wellFormed
    rw [show (next p cached_generation r b).artifacts = passes.mined.artifacts from hsame.artifacts,
      hmined.mem_iff htype] at ha
    rw [show (next p cached_generation r b).source_items = passes.mined.source_items from hsame.source_items,
      hmined.source_items] at hs
    -- the row and the source it came from, before the invalidation pass
    obtain ⟨a₀, ha₀, hk⟩ := (hinvalidates.artifacts.origin ha).resolve_right False.elim
    obtain ⟨s₀, hs₀, hks⟩ := (hinvalidates.source_items.origin hs).resolve_right False.elim
    obtain ⟨hlive₀, hswept⟩ := hk.live_iff.1 hlive
    rw [hjudged.artifacts] at ha₀
    rw [hjudged.source_items] at hs₀
    rw [hjudged.build_seq, hgood.current_seq] at hswept
    rw [show s = _ from hks] at hid ⊢
    rw [hk.same.source_id] at hid
    rw [hk.same.artifact_type] at htype
    rw [hk.same.made_from]
    refine (hgood.current.current a₀ ha₀ hlive₀ htype s₀ hs₀ hid).resolve_right ?_
    rintro ⟨hn, hchanged | hstale₀⟩
    · exact hswept (.inr (.inr ⟨hchanged, hn⟩))
    · exact hswept (hstale passes hpasses a₀ (hgood.current.before a₀ ha₀ hn) hlive₀ hstale₀)

/-- Whatever builds came before, and wherever they failed, a completed build leaves one generation of
each source, if it sweeps what they have left stale. -/
theorem oneGeneration_history (hinj : Function.Injective p.gen_random_uuid) (builds : List Build) (b : Build)
    (hcompletes : (run p cached_generation (history p cached_generation builds) b).finalized.isSome = true)
    (hone : OneContent p b) (hstale : StaleSwept p (history p cached_generation builds) b) :
    OneGeneration (history p cached_generation (builds ++ [b]))
      (history p cached_generation (builds ++ [b])).build_seq := by
  simp only [history, List.foldl_append, List.foldl_cons, List.foldl_nil]
  exact oneGeneration_next (wellFormed_history hinj builds) hinj hcompletes hone hstale

/-- A page changes, and the build that commits the new text fails; it changes again before the next one, which then retires
both generations. -/
theorem oneGeneration_changed_page :
    (history .plain cached_generation [page_build [("d", "A"), ("e", "C")],
        { page_build [("d", "B"), ("e", "C")] with fault := some .in_finalize },
        page_build [("d", "D"), ("e", "C")]]).artifacts.map (fun a => (a.valid_from_seq, a.invalidated_at_seq)) =
      [(1, some 3), (1, none), (2, some 3), (3, none)] ∧
    OneGeneration (history .plain cached_generation [page_build [("d", "A"), ("e", "C")],
        { page_build [("d", "B"), ("e", "C")] with fault := some .in_finalize }, page_build [("d", "D"), ("e", "C")]])
      (history .plain cached_generation [page_build [("d", "A"), ("e", "C")],
        { page_build [("d", "B"), ("e", "C")] with fault := some .in_finalize },
        page_build [("d", "D"), ("e", "C")]]).build_seq :=
  ⟨by decide +kernel, oneGeneration_history (fun _ _ h => h)
    [page_build [("d", "A"), ("e", "C")], { page_build [("d", "B"), ("e", "C")] with fault := some .in_finalize }]
    (page_build [("d", "D"), ("e", "C")]) (by decide +kernel) (by decide +kernel) (by decide +kernel)⟩

/-- The second build fails after it has committed the changed page; to the third the page is unchanged,
so that it supersedes nothing. -/
theorem two_generations_after_failed_build :
    (run .plain cached_generation (history .plain cached_generation
        [page_build [("d", "A")], { page_build [("d", "B")] with fault := some .in_finalize }])
      (page_build [("d", "B")])).finalized.isSome = true ∧
    ¬ OneGeneration (history .plain cached_generation
        [page_build [("d", "A")], { page_build [("d", "B")] with fault := some .in_finalize },
          page_build [("d", "B")]])
      (history .plain cached_generation
        [page_build [("d", "A")], { page_build [("d", "B")] with fault := some .in_finalize },
          page_build [("d", "B")]]).build_seq := by
  decide +kernel

/-- Stale artifacts are left by failed builds only: where every build completes, none is ever served. -/
theorem oneGeneration_of_allComplete (hinj : Function.Injective p.gen_random_uuid) (builds : List Build)
    (hcomplete : AllComplete p builds) (hone : ∀ b ∈ builds, OneContent p b) :
    OneGeneration (history p cached_generation builds) (history p cached_generation builds).build_seq := by
  have hinv : WellFormed p (history p cached_generation builds) ∧
      OneGeneration (history p cached_generation builds) (history p cached_generation builds).build_seq := by
    refine Along.invariant (I := fun r => WellFormed p r ∧ OneGeneration r r.build_seq) ?_
      ⟨wellFormed_empty p, by simp [OneGeneration, Registry.empty]⟩ hcomplete
    rintro r b hb ⟨hwf, hr⟩ hcompletes
    refine ⟨(wellFormed_next hwf hinj).1, oneGeneration_next hwf hinj hcompletes (hone b hb) ?_⟩
    rintro passes - a ha hlive ⟨htype, s, hs, hid, hmade⟩
    exact absurd (hr a ha htype ((hwf.artifacts_stamped a ha).memberAt_iff_live.2 hlive) s hs hid) hmade
  exact hinv.2

end Builds

end AgenticKb

import AgenticKb.Effects.Build
import AgenticKb.Effects.Bookkeeping

open AgenticKb.Lib

namespace AgenticKb

/-! What a build does to the source rows, exactly: they change by the touches and upserts of its sources and
by the tombstones of its sweep, and by nothing else. -/

/-- The source rows and the open transaction are as they were. -/
def RowsKept (r r' : Registry) : Prop := r'.source_items = r.source_items ∧ r'.now = r.now

section Frames

variable {p : Platform} {b : Build} {r r' : Registry}

theorem RowsKept.refl (r : Registry) : RowsKept r r := ⟨rfl, rfl⟩

theorem RowsKept.trans {r'' : Registry} (h : RowsKept r r') (h' : RowsKept r' r'') : RowsKept r r'' :=
  ⟨h'.1.trans h.1, h'.2.trans h.2⟩

theorem rowsKept_generation_record {cache_key input_hash : String} {ids : List Uuid}
    (h : GenerationCacheGate.record r cache_key input_hash ids = some r') : RowsKept r r' := by
  simp only [GenerationCacheGate.record, Option.bind_eq_bind, Option.bind_eq_some_iff, Option.some.injEq] at h
  obtain ⟨rows, -, rfl⟩ := h
  exact ⟨rfl, rfl⟩

theorem rowsKept_embed_gated {id : Uuid} (h : embed_gated p b r id = some r') : RowsKept r r' := by
  unfold embed_gated at h
  split at h
  · exact Option.some.inj h ▸ .refl r
  · dsimp only at h
    split at h
    · exact Option.some.inj h ▸ .refl r
    · simp only [Option.bind_eq_bind, Option.bind_eq_some_iff, Option.some.injEq] at h
      obtain ⟨result, -, rfl⟩ := h
      exact ⟨rfl, rfl⟩

theorem rowsKept_embed_and_index {ids : List Uuid} (h : embed_and_index p b r ids = some r') :
    RowsKept r r' := by
  simp only [embed_and_index, Option.bind_eq_bind, Option.bind_eq_some_iff] at h
  obtain ⟨mid, hmid, h⟩ := h
  have hkept : RowsKept r mid := by
    apply foldlM_invariant (I := RowsKept r) _ (.refl r) hmid
    exact fun _ _ _ _ hs hstep => hs.trans (rowsKept_embed_gated hstep)
  split at h
  · exact Option.some.inj h ▸ hkept
  · simp at h

theorem rowsKept_docify_gated {fetched : NormalizedContent} {source_id : Uuid} {ids : List Uuid}
    (h : docify_gated p cached_generation b r fetched source_id = some (r', ids)) : RowsKept r r' := by
  unfold docify_gated at h
  split at h
  · simp only [Option.some.injEq, Prod.mk.injEq] at h
    exact h.1 ▸ .refl r
  · simp only [Option.bind_eq_bind, Option.bind_eq_some_iff, Option.some.injEq, Prod.mk.injEq] at h
    obtain ⟨drafts, -, recorded, hrecord, rfl, -⟩ := h
    have hwritten : RowsKept r (write_doc_artifacts p r (source_id, fetched.content_hash) b.kb_version r.build_seq
        fetched.source.acl_teams drafts).1 := ⟨rfl, rfl⟩
    exact hwritten.trans (rowsKept_generation_record hrecord)

/-- A changed source is upserted; the rest of its processing leaves the rows alone. -/
theorem rowsKept_process_changed_source {fetched : NormalizedContent} {id : Uuid}
    (h : process_changed_source p cached_generation b r fetched = some (r', id)) :
    RowsKept (upsert_source_item p r fetched).1 r' ∧ id = (upsert_source_item p r fetched).2 := by
  unfold process_changed_source at h
  split at h
  · simp only [process_commit_source, Option.bind_eq_bind, Option.bind_eq_some_iff, Option.some.injEq,
      Prod.mk.injEq] at h
    obtain ⟨mid, hembed, rfl, rfl⟩ := h
    have hkept := rowsKept_embed_and_index hembed
    exact ⟨⟨hkept.1.trans rfl, hkept.2.trans rfl⟩, rfl⟩
  · simp only [Option.bind_eq_bind, Option.bind_eq_some_iff, Option.some.injEq, Prod.mk.injEq,
      Prod.exists] at h
    obtain ⟨mid, ids, hdocify, indexed, hembed, rfl, rfl⟩ := h
    exact ⟨(rowsKept_docify_gated hdocify).trans (rowsKept_embed_and_index hembed), rfl⟩

theorem rowsKept_write_path {units : List CodeUnit} {unit_source_ids : Dict String Uuid} {repo : String}
    (w : CodeWrites) (entry : String × List CodeArtifactDraft) :
    RowsKept w.registry (write_path p b units unit_source_ids repo w entry).registry := by
  unfold write_path
  split
  · exact ⟨rfl, rfl⟩
  · exact .refl _

theorem rowsKept_write_code_edges {kb_version repo : String} {n : Nat} {drafts : List CodeEdgeDraft}
    {key_to_id : CodeKeyMap} (h : write_code_edges p r kb_version n repo drafts key_to_id = some r') :
    RowsKept r r' := by
  apply foldlM_invariant (I := RowsKept r) _ (.refl r) h
  intro mid draft mid' _ hmid hstep
  refine hmid.trans ?_
  simp only [write_code_edge, Option.bind_eq_bind, Option.bind_eq_some_iff] at hstep
  obtain ⟨from_id, -, to_id, -, hstep⟩ := hstep
  split at hstep
  · exact Option.some.inj hstep ▸ ⟨rfl, rfl⟩
  · exact Option.some.inj hstep ▸ .refl mid

/-- The rows of a rewritten repo are advanced file by file; its artifacts and edges leave them alone. -/
theorem rowsKept_graphify_one_repo {s s' : SourceLoop} {entry : String × List CodeUnit}
    (h : graphify_one_repo p b s entry = some s') :
    (b.graphify_tree (entry.2.map fun unit => (unit.path, unit.fetched.text)) = none ∧
      s'.current = s.current ∧ s'.seen = s.seen ∧ s'.changed = s.changed) ∨
    (b.graphify_tree (entry.2.map fun unit => (unit.path, unit.fetched.text)) ≠ none ∧
      RowsKept (upsert_units p s.current entry.2).1 s'.current ∧
      s'.seen = s.seen ++ (upsert_units p s.current entry.2).2.2 ∧
      s'.changed = s.changed ++ (upsert_units p s.current entry.2).2.2) := by
  obtain ⟨repo, units⟩ := entry
  simp only [graphify_one_repo] at h
  cases hresult : b.graphify_tree (units.map fun unit => (unit.path, unit.fetched.text)) with
  | none =>
    rw [hresult] at h
    rw [← Option.some.inj h]
    exact .inl ⟨rfl, rfl, rfl, rfl⟩
  | some result =>
    rw [hresult] at h
    simp only [write_repo_artifacts, Option.bind_eq_bind, Option.bind_eq_some_iff, Option.some.injEq,
      Prod.mk.injEq, Prod.exists] at h
    obtain ⟨written, code_key_map, ids, ⟨embedded, hembed, rfl, rfl, rfl⟩, linked, hlinked, rfl⟩ := h
    refine .inr ⟨by simp, ?_, rfl, rfl⟩
    refine RowsKept.trans ?_ ((rowsKept_embed_and_index hembed).trans (rowsKept_write_code_edges hlinked))
    exact foldl_invariant (I := fun w : CodeWrites => RowsKept (upsert_units p s.current units).1 w.registry)
      (fun w entry _ hw => hw.trans (rowsKept_write_path w entry)) (.refl _)

theorem now_upsert_source_item (fetched : NormalizedContent) :
    (upsert_source_item p r fetched).1.now = r.now := by
  unfold upsert_source_item
  cases source_row r fetched <;> rfl

theorem now_upsert_units (p : Platform) (r : Registry) (units : List CodeUnit) :
    (upsert_units p r units).1.now = r.now := by
  apply foldl_invariant (I := fun rows : Registry × Dict String Uuid × List Uuid => rows.1.now = r.now)
  · rintro ⟨mid, unit_source_ids, ids⟩ unit - hmid
    have hstep : (upsert_unit p mid unit).1.now = mid.now := by
      unfold upsert_unit
      split
      · exact now_upsert_source_item unit.fetched
      · rfl
    dsimp only at hmid ⊢
    generalize upsert_unit p mid unit = result at hstep
    obtain ⟨r', written⟩ := result
    cases written <;> exact hstep.trans hmid
  · rfl

theorem committed_graphify_one_repo {s s' : SourceLoop} {entry : String × List CodeUnit}
    (h : graphify_one_repo p b s entry = some s') : s'.committed = s.committed := by
  obtain ⟨repo, units⟩ := entry
  simp only [graphify_one_repo] at h
  split at h
  · exact (congrArg SourceLoop.committed (Option.some.inj h)).symm
  · simp only [Option.bind_eq_bind, Option.bind_eq_some_iff, Option.some.injEq, Prod.exists] at h
    obtain ⟨_, _, _, _, linked, -, rfl⟩ := h
    rfl

end Frames

/-- What a property of the source rows has to survive, when a build touches and upserts no content but those
that meet `recorded`. `Q` speaks of the ids that count as seen. -/
structure RowRule (p : Platform) (recorded : NormalizedContent → Prop) (I : Registry → Prop) (Q : Uuid → Prop) :
    Prop where
  kept : ∀ {r r'}, r'.source_items = r.source_items → r.now ≤ r'.now → I r → I r'
  touch : ∀ {r fetched}, WellFormed p r → recorded fetched → I r →
    I (touch_last_seen r fetched).1 ∧ ∀ id ∈ (touch_last_seen r fetched).2, Q id
  upsert : ∀ {r fetched}, WellFormed p r → recorded fetched → I r →
    I (upsert_source_item p r fetched).1 ∧ Q (upsert_source_item p r fetched).2

/-- The rule at work between two sources. -/
structure RowsHold (I : Registry → Prop) (Q : Uuid → Prop) (s : SourceLoop) : Prop where
  committed : I s.committed
  current : I s.current
  now : s.committed.now ≤ s.current.now
  seen : ∀ id ∈ s.seen, Q id
  changed : ∀ id ∈ s.changed, Q id

section Rule

variable {p : Platform} {b : Build} {n : Nat} {recorded : NormalizedContent → Prop} {I : Registry → Prop}
  {Q : Uuid → Prop} {s s' : SourceLoop} {fetched : NormalizedContent}

theorem RowsHold.start {r : Registry} (h : I r) : RowsHold I Q (.start r) := 
  ⟨h, h, le_rfl, by simp [SourceLoop.start], by simp [SourceLoop.start]⟩

private theorem seen_append {seen ids : List Uuid} (h : ∀ id ∈ seen, Q id) (hids : ∀ id ∈ ids, Q id) :
    ∀ id ∈ seen ++ ids, Q id :=
  fun id hid => (List.mem_append.1 hid).elim (h id) (hids id)

private theorem rowsHold_fail_source (rule : RowRule p recorded I Q) (hloop : LoopWellFormed p n s)
    (h : RowsHold I Q s) (hok : recorded fetched) : RowsHold I Q (fail_source s fetched) := by
  have hnow : s.committed.now ≤ s.current.now + 1 := h.now.trans (Nat.le_succ _)
  have hrolled : I { s.committed with now := s.current.now + 1 } :=
    rule.kept (r := s.committed) rfl hnow h.committed
  have hwf : WellFormed p { s.committed with now := s.current.now + 1 } :=
    hloop.committed.of_sameCore ⟨rfl, rfl, rfl, rfl, rfl⟩
  obtain ⟨htouch, hids⟩ := rule.touch hwf hok hrolled
  unfold fail_source
  simp only [SourceLoop.rollback]
  have hkept : (touch_last_seen { s.committed with now := s.current.now + 1 } fetched).1.now =
      s.current.now + 1 := rfl
  generalize touch_last_seen { s.committed with now := s.current.now + 1 } fetched = touched at htouch hids hkept
  obtain ⟨r, prior⟩ := touched
  dsimp only at htouch hids hkept
  cases prior with
  | none => exact ⟨h.committed, htouch, by rw [hkept]; exact hnow, h.seen, h.changed⟩
  | some prior_id =>
    have hcommit : I r.commit := rule.kept (r := r) rfl (Nat.le_succ _) htouch
    refine ⟨hcommit, hcommit, le_rfl, seen_append h.seen fun id hid => ?_, h.changed⟩
    exact hids id (List.mem_singleton.1 hid ▸ rfl)

theorem rowsHold_process_source (rule : RowRule p recorded I Q) (hloop : LoopWellFormed p n s)
    (h : RowsHold I Q s) (hok : is_code_file fetched = false → recorded fetched) :
    RowsHold I Q (process_source p cached_generation b s fetched) := by
  unfold process_source
  split
  · exact ⟨h.committed, h.current, h.now, h.seen, h.changed⟩
  · rename_i hprose
    rw [Bool.not_eq_true] at hprose
    split
    · obtain ⟨htouch, hids⟩ := rule.touch hloop.current (hok hprose) h.current
      exact ⟨h.committed, htouch, h.now, seen_append h.seen fun id hid => hids id (by simpa using hid), h.changed⟩
    · split
      · rename_i r id hprocess
        obtain ⟨⟨hrows, hnow⟩, rfl⟩ := rowsKept_process_changed_source hprocess
        obtain ⟨hupsert, hid⟩ := rule.upsert hloop.current (hok hprose) h.current
        have hcommit : I r.commit := rule.kept hrows (hnow ▸ Nat.le_succ _) hupsert
        have hnew : ∀ id' ∈ [(upsert_source_item p s.current fetched).2], Q id' :=
          fun id' hid' => List.mem_singleton.1 hid' ▸ hid
        exact ⟨hcommit, hcommit, le_rfl, seen_append h.seen hnew, seen_append h.changed hnew⟩
      · exact rowsHold_fail_source rule hloop h (hok hprose)

/-- The files of one repo. -/
theorem rowsHold_upsert_units (rule : RowRule p recorded I Q) (hinj : Function.Injective p.gen_random_uuid)
    {r : Registry} (hwf : WellFormed p r) (h : I r) (units : List CodeUnit)
    (hok : ∀ unit ∈ units, recorded unit.fetched) :
    (WellFormed p (upsert_units p r units).1 ∧ I (upsert_units p r units).1) ∧
      ∀ id ∈ (upsert_units p r units).2.2, Q id := by
  apply foldl_invariant (I := fun rows : Registry × Dict String Uuid × List Uuid =>
    (WellFormed p rows.1 ∧ I rows.1) ∧ ∀ id ∈ rows.2.2, Q id)
  · rintro ⟨mid, unit_source_ids, ids⟩ unit hunit ⟨⟨hmid, hI⟩, hQ⟩
    have hstep : WellFormed p (upsert_unit p mid unit).1 ∧ I (upsert_unit p mid unit).1 ∧
        ∀ id ∈ (upsert_unit p mid unit).2, Q id := by
      unfold upsert_unit
      split
      · obtain ⟨hupsert, hid⟩ := rule.upsert hmid (hok unit hunit) hI
        exact ⟨hmid.upsert_source_item _ hinj, hupsert, fun id hid' => Option.some.inj hid' ▸ hid⟩
      · obtain ⟨htouch, hids⟩ := rule.touch hmid (hok unit hunit) hI
        exact ⟨(onlyTouched_touch_last_seen _ _).wellFormed hmid, htouch, hids⟩
    dsimp only
    generalize upsert_unit p mid unit = result at hstep
    obtain ⟨r', written⟩ := result
    cases written with
    | none => exact ⟨⟨hstep.1, hstep.2.1⟩, hQ⟩
    | some id =>
      exact ⟨⟨hstep.1, hstep.2.1⟩, seen_append hQ fun id' hid => hstep.2.2 id' (List.mem_singleton.1 hid ▸ rfl)⟩
  · exact ⟨⟨hwf, h⟩, by simp⟩

/-- The code files whose rows the build touches or advances: all of them when no file has changed, and else
those of the repos that are rewritten. -/
structure UnitsRecorded (b : Build) (recorded : NormalizedContent → Prop) (s : SourceLoop) : Prop where
  kept : s.any_code_changed = false → ∀ unit ∈ s.code_units, recorded unit.fetched
  rewritten : ∀ entry ∈ b.repos s,
    b.graphify_tree (entry.2.map fun unit => (unit.path, unit.fetched.text)) ≠ none →
    ∀ unit ∈ entry.2, recorded unit.fetched

private theorem rowsHold_touch_units (rule : RowRule p recorded I Q) {units : List CodeUnit}
    (hwf : WellFormed p s.current) (h : RowsHold I Q s) (hok : ∀ unit ∈ units, recorded unit.fetched) :
    RowsHold I Q (units.foldl touch_unit s) := by
  refine (foldl_invariant (I := fun s => WellFormed p s.current ∧ RowsHold I Q s) ?_ ⟨hwf, h⟩).2
  rintro s unit hunit ⟨hwf, hs⟩
  obtain ⟨htouch, hids⟩ := rule.touch hwf (hok unit hunit) hs.current
  refine ⟨(onlyTouched_touch_last_seen s.current unit.fetched).wellFormed hwf, hs.committed, htouch, hs.now, ?_,
    hs.changed⟩
  exact seen_append hs.seen fun id hid => hids id (Option.mem_toList.1 hid)

private theorem rowsHold_graphify_one_repo (rule : RowRule p recorded I Q)
    (hinj : Function.Injective p.gen_random_uuid) (hwf : WellFormed p s.current) (h : RowsHold I Q s)
    {entry : String × List CodeUnit}
    (hok : b.graphify_tree (entry.2.map fun unit => (unit.path, unit.fetched.text)) ≠ none →
      ∀ unit ∈ entry.2, recorded unit.fetched)
    (hcommitted : s'.committed = s.committed) (hstep : graphify_one_repo p b s entry = some s') :
    RowsHold I Q s' := by
  cases rowsKept_graphify_one_repo hstep with
  | inl hfailed =>
    obtain ⟨-, hcurrent, hseen, hchanged⟩ := hfailed
    exact ⟨hcommitted ▸ h.committed, hcurrent ▸ h.current, hcommitted ▸ hcurrent ▸ h.now, hseen ▸ h.seen,
      hchanged ▸ h.changed⟩
  | inr hwritten =>
    obtain ⟨hresult, ⟨hrows, hnow⟩, hseen, hchanged⟩ := hwritten
    obtain ⟨⟨-, hI⟩, hQ⟩ := rowsHold_upsert_units rule hinj hwf h.current entry.2 (hok hresult)
    have hups : (upsert_units p s.current entry.2).1.now = s.current.now := now_upsert_units p s.current entry.2
    refine ⟨hcommitted ▸ h.committed, rule.kept hrows hnow.ge hI, ?_, hseen ▸ seen_append h.seen hQ,
      hchanged ▸ seen_append h.changed hQ⟩
    rw [hcommitted, hnow, hups]
    exact h.now

/-- The rule of the source rows: what it speaks of holds wherever the source loop may end. -/
theorem rowsHold_process_sources (rule : RowRule p recorded I Q) {r : Registry} (hwf : WellFormed p r)
    (hinj : Function.Injective p.gen_random_uuid) (hr : I r)
    (hprose : ∀ f ∈ b.turns p, is_code_file f = false → recorded f)
    (hunits : UnitsRecorded b recorded (source_loop p b r))
    (h : process_sources p cached_generation b r = .error s ∨ process_sources p cached_generation b r = .ok s) :
    RowsHold I Q s := by
  have htrue : LoopRule p b r.build_seq (fun _ _ => True) (fun _ _ => True) fun _ _ => True := loopRule_true
  have hturning := turning_source_loop htrue hwf hinj rfl trivial (.of_forall fun _ _ _ => trivial)
  have hloop : RowsHold I Q (source_loop p b r) := by
    refine (foldl_invariant (I := fun s => LoopWellFormed p r.build_seq s ∧ RowsHold I Q s) ?_
      ⟨.start hwf, .start hr⟩).2
    rintro s f hf ⟨hs, hrows⟩
    exact ⟨hs.turn (process_source_turn hs.current hinj f),
      rowsHold_process_source rule hs hrows (hprose f hf)⟩
  have hend := process_sources_end p b r
  generalize process_sources p cached_generation b r = ended at hend h
  cases hend with
  | interrupted =>
    cases h with
    | inl h => exact Except.error.inj h ▸ hloop
    | inr h => simp at h
  | kept hcode =>
    cases h with
    | inl h => simp at h
    | inr h =>
      rw [← Except.ok.inj h]
      exact rowsHold_touch_units rule hturning.loop.current hloop (hunits.kept hcode)
  | rewritten s' hcode hrepos hrun =>
    cases h with
    | inl h => simp at h
    | inr h =>
      have hrewritten : Rewriting p b r.build_seq (fun _ _ => True) (source_loop p b r).code_units s' ∧
          RowsHold I Q s' := by
        apply foldlM_invariant (I := fun s => Rewriting p b r.build_seq (fun _ _ => True)
          (source_loop p b r).code_units s ∧ RowsHold I Q s) _ _ hrun
        · rintro s entry s' hentry ⟨hs, hrows⟩ hstep
          have hsub : ∀ unit ∈ entry.2, unit ∈ (source_loop p b r).code_units := fun unit hu =>
            (mem_units_by_repo (hrepos ▸ hentry) unit hu).1
          exact ⟨rewriting_repo htrue hinj hs hsub trivial hstep, rowsHold_graphify_one_repo rule hinj
            hs.wellFormed hrows (hunits.rewritten entry hentry) (committed_graphify_one_repo hstep) hstep⟩
        · exact ⟨⟨hturning.loop.current, hturning.loop.current_build_seq, by simp [KeysLive, hturning.keys],
            hturning.loop.current_rows, hturning.listed, trivial⟩, hloop⟩
      have hcommit : I s'.current.commit := rule.kept (r := s'.current) rfl (Nat.le_succ _) hrewritten.2.current
      rw [← Except.ok.inj h]
      exact ⟨hcommit, hcommit, le_rfl, hrewritten.2.seen, hrewritten.2.changed⟩

/-- The same, seen from outside the build. -/
theorem rowsHold_run (rule : RowRule p recorded I Q) {r : Registry} (hwf : WellFormed p r)
    (hinj : Function.Injective p.gen_random_uuid) (hr : I r)
    (hprose : ∀ f ∈ b.turns p, is_code_file f = false → recorded f)
    (hunits : UnitsRecorded b recorded (source_loop p b (start_run p r b.kb_version))) :
    RowsHold I Q (run p cached_generation r b).sources := by
  have hstart : I (start_run p r b.kb_version) := rule.kept (r := r) rfl (Nat.le_succ _) hr
  refine rowsHold_process_sources rule (wellFormed_start_run hwf) hinj hstart hprose hunits ?_
  cases run_end p r b with
  | failed hsources => exact hsources
  | completed passes hsources => exact .inr hsources

/-- A finished build has moved the clock on. -/
theorem now_next (p : Platform) (r : Registry) (b : Build) :
    (run p cached_generation r b).sources.current.now < (next p cached_generation r b).now := by
  have hfail : ∀ s, s.current.now < (fail_run (r.fresh p) s).registry.now := fun s =>
    (Nat.lt_succ_self _).trans (Nat.lt_succ_self _)
  unfold next run
  dsimp only
  split
  · exact hfail _
  · split
    · exact hfail _
    · split
      · rename_i passes hpasses
        exact Nat.lt_succ_of_le (booksKept_finalize_graph hpasses).now
      · exact hfail _

/-- What the rows of a build turn into when it is over: the sweep has tombstoned some of them. -/
theorem rows_next {I' : Registry → Prop} (rule : RowRule p recorded I Q) {r : Registry} (hwf : WellFormed p r)
    (hinj : Function.Injective p.gen_random_uuid) (hr : I r)
    (hprose : ∀ f ∈ b.turns p, is_code_file f = false → recorded f)
    (hunits : UnitsRecorded b recorded (source_loop p b (start_run p r b.kb_version)))
    (hfinal : ∀ {r r' ids}, TableStep (Tombstoned ids) (fun _ => False) r.source_items r'.source_items →
      r.now < r'.now → I r → I' r') : I' (next p cached_generation r b) := by
  have hloop := rowsHold_run rule hwf hinj hr hprose hunits
  have hgood := sourcesGood_run (b := b) hwf hinj
  have hnow := now_next p r b
  cases run_end p r b with
  | failed hsources hpasses hsame =>
    have hstep : TableStep (Tombstoned []) (fun _ => False) (run p cached_generation r b).sources.committed.source_items
        (next p cached_generation r b).source_items := hsame.source_items ▸ .refl fun row _ => tombstoned_nil row
    exact hfinal hstep (hloop.now.trans_lt hnow) hloop.committed
  | completed passes hsources hpasses hfinished hsame =>
    have hstep := (hfinished.invalidates hgood.current_wellFormed).source_items
    rw [hfinished.onlyEdges_judged.source_items,
      ← (hfinished.onlyAliases_mined hgood.current_wellFormed hinj).source_items, ← hsame.source_items] at hstep
    exact hfinal hstep hnow hloop.current

end Rule

section Recorded

variable {p : Platform}

/-- Every row was last recorded before the open transaction. -/
def RecordedBefore (r : Registry) : Prop := ∀ row ∈ r.source_items, row.last_recorded < r.now

private theorem rowRule_recorded : RowRule p (fun _ => True)
    (fun r => ∀ row ∈ r.source_items, row.last_recorded ≤ r.now) fun _ => True where
  kept hrows hnow h row hrow := (h row (hrows ▸ hrow)).trans hnow
  touch _ _ h := by
    refine ⟨fun row hrow => ?_, fun _ _ => trivial⟩
    obtain ⟨row₀, hrow₀, rfl⟩ := List.mem_map.1 hrow
    split
    · exact le_rfl
    · exact h row₀ hrow₀
  upsert {r fetched} _ _ h := by
    refine ⟨?_, trivial⟩
    rw [now_upsert_source_item]
    intro row hrow
    unfold upsert_source_item at hrow
    cases hfound : source_row r fetched with
    | none =>
      rw [hfound] at hrow
      cases List.mem_append.1 hrow with
      | inl hold => exact h row hold
      | inr hnew =>
        rw [List.mem_singleton.1 hnew]
        exact le_rfl
    | some existing =>
      rw [hfound] at hrow
      obtain ⟨row₀, hrow₀, rfl⟩ := List.mem_map.1 hrow
      split
      · exact le_rfl
      · exact h row₀ hrow₀

theorem recordedBefore_next {r : Registry} {b : Build} (hwf : WellFormed p r)
    (hinj : Function.Injective p.gen_random_uuid) (h : RecordedBefore r) :
    RecordedBefore (next p cached_generation r b) := by
  refine rows_next rowRule_recorded hwf hinj (fun row hrow => (h row hrow).le) (fun _ _ _ => trivial)
    ⟨fun _ _ _ => trivial, fun _ _ _ _ _ => trivial⟩ ?_
  intro r r' ids hstep hnow h row hrow
  obtain ⟨row₀, hrow₀, hk⟩ := (hstep.origin hrow).resolve_right id
  rw [show row = _ from hk]
  exact (h row₀ hrow₀).trans_lt hnow

theorem recordedBefore_history (hinj : Function.Injective p.gen_random_uuid) (builds : List Build) :
    RecordedBefore (history p cached_generation builds) := by
  refine (foldl_invariant (I := fun r => WellFormed p r ∧ RecordedBefore r) ?_
    ⟨wellFormed_empty p, by simp [RecordedBefore, Registry.empty]⟩).2
  exact fun r b _ h => ⟨(wellFormed_next h.1 hinj).1, recordedBefore_next h.1 hinj h.2⟩

end Recorded

section Vanished

variable {p : Platform} {b : Build} {r : Registry} {row : SourceItem}

/-- A row that no source of the build is recorded at stays as it was, and is not seen. -/
theorem rowRule_unrecorded (hinj : Function.Injective p.gen_random_uuid) (row : SourceItem) :
    RowRule p (fun fetched => fetched.key ≠ row.key) (fun r => row ∈ r.source_items)
      (fun id => id ≠ row.source_id) where
  kept hrows _ h := hrows ▸ h
  touch {r fetched} hwf hother h := by
    have hdiffers : same_source fetched row ≠ true := fun hsame => hother (same_source_iff.1 hsame).symm
    refine ⟨List.mem_map.2 ⟨row, h, if_neg hdiffers⟩, fun id hid heq => ?_⟩
    obtain ⟨found, hfound, rfl⟩ := Option.map_eq_some_iff.1 hid
    obtain ⟨hmem, hsame⟩ := source_row_eq_some hfound
    exact hdiffers (hwf.source_eq hmem h heq ▸ hsame)
  upsert {r fetched} hwf hother h := by
    have hdiffers : same_source fetched row ≠ true := fun hsame => hother (same_source_iff.1 hsame).symm
    unfold upsert_source_item
    cases hfound : source_row r fetched with
    | none => exact ⟨List.mem_append_left _ h, fun heq => hwf.fresh_not_source hinj row h heq.symm⟩
    | some existing =>
      obtain ⟨hmem, hsame⟩ := source_row_eq_some hfound
      exact ⟨List.mem_map.2 ⟨row, h, if_neg hdiffers⟩, fun heq => hdiffers (hwf.source_eq hmem h heq ▸ hsame)⟩

/-- A live row that no source of the build was recorded at has vanished when its sources are done. -/
theorem unrecorded_row_vanished (hwf : WellFormed p r) (hinj : Function.Injective p.gen_random_uuid)
    (hrecorded : RecordedBefore r) (hrow : row ∈ r.source_items) (hlive : row.is_deleted = false)
    (hprose : ∀ f ∈ b.turns p, is_code_file f = false → f.key ≠ row.key)
    (hunits : UnitsRecorded b (fun f => f.key ≠ row.key) (source_loop p b (start_run p r b.kb_version)))
    (r' : Registry) (hrows : r'.source_items = (run p cached_generation r b).sources.current.source_items) :
    row ∈ r'.source_items ∧
      row.source_id ∈ vanished_live_sources r' (run p cached_generation r b).sources.seen r.now := by
  have hloop := rowsHold_run (rowRule_unrecorded hinj row) hwf hinj hrow hprose hunits
  have hmem : row ∈ r'.source_items := hrows ▸ hloop.current
  refine ⟨hmem, List.mem_map.2 ⟨row, List.mem_filter.2 ⟨hmem, ?_⟩, rfl⟩⟩
  have hunseen : row.source_id ∉ (run p cached_generation r b).sources.seen := fun hid => hloop.seen _ hid rfl
  simp [hlive, hunseen, hrecorded row hrow]

/-- The sweep of a completed build tombstones it. -/
theorem unrecorded_row_tombstoned (hwf : WellFormed p r) (hinj : Function.Injective p.gen_random_uuid)
    (hrecorded : RecordedBefore r) (hrow : row ∈ r.source_items) (hlive : row.is_deleted = false)
    (hprose : ∀ f ∈ b.turns p, is_code_file f = false → f.key ≠ row.key)
    (hunits : UnitsRecorded b (fun f => f.key ≠ row.key) (source_loop p b (start_run p r b.kb_version)))
    (hdone : (run p cached_generation r b).finalized.isSome = true) :
    { row with is_deleted := true } ∈ (next p cached_generation r b).source_items := by
  have hgood := sourcesGood_run (b := b) hwf hinj
  have hgone := unrecorded_row_vanished hwf hinj hrecorded hrow hlive hprose hunits
  cases run_end p r b with
  | failed hsources hpasses => simp [hpasses] at hdone
  | completed passes hsources hpasses hfinished hsame =>
    obtain ⟨hmem, hvanished⟩ := hgone passes.judged hfinished.onlyEdges_judged.source_items
    have hstep := (hfinished.invalidates hgood.current_wellFormed).source_items
    rw [← (hfinished.onlyAliases_mined hgood.current_wellFormed hinj).source_items, ← hsame.source_items] at hstep
    obtain ⟨row', hrow', hk⟩ := hstep.successor hmem
    rw [show row' = _ from hk] at hrow'
    simpa [next, hlive, mem_tombstoned_of_vanished hvanished] using hrow'

end Vanished

end AgenticKb

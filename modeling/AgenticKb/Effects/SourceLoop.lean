import AgenticKb.Effects.CodeGraph

open AgenticKb.Lib

namespace AgenticKb

theorem sameCore_commit (r : Registry) : SameCore r r.commit := ⟨rfl, rfl, rfl, rfl, rfl⟩

/-- What one turn of the source loop can do. -/
inductive Turn (p : Platform) (b : Build) (s : SourceLoop) (fetched : NormalizedContent) :
    SourceLoop → Prop where
  /-- A code file is put aside for the whole-tree pass. -/
  | collected (unit : CodeUnit) (hcode : is_code_file fetched = true) (hunit : unit.fetched = fetched)
      (hrepo : unit.path = fetched.source.path.getD "" ∧ unit.repo = fetched.source.repo.getD "")
      (hchanged : unit.changed = !is_unchanged s.current fetched) :
      Turn p b s fetched
        { s with
          any_code_changed := s.any_code_changed || unit.changed, code_units := s.code_units ++ [unit] }
  /-- The row of an unchanged source is touched. -/
  | unchanged (r : Registry) (row : SourceItem) (hrow : row ∈ s.current.source_items)
      (hsame : same_source fetched row = true) (hhash : row.content_hash = fetched.content_hash)
      (htouch : OnlyTouched s.current r) :
      Turn p b s fetched { s with current := r, seen := s.seen ++ [row.source_id] }
  /-- A changed source is processed and committed. -/
  | processed (r : Registry) (id : Uuid) (added : List KnowledgeArtifact)
      (hprose : is_code_file fetched = false) (hchanged : is_unchanged s.current fetched = false)
      (hprocessed : Processed p s.current r fetched id added)
      (hadded : fetched.source.source_type = .git_metadata ∨
        cached_generation.lookup (upsert_source_item p s.current fetched).1
            (generation_key p b fetched) = none ∧ b.extract fetched ≠ some [] → added ≠ []) :
      Turn p b s fetched
        { s with
          committed := r, current := r, seen := s.seen ++ [id], changed := s.changed ++ [id] }
  /-- A failed source is rolled back; its row, if it has one, is touched and committed. -/
  | failed (committed current : Registry) (ids : List Uuid) (hcommitted : OnlyTouched s.committed committed)
      (hcurrent : OnlyTouched committed current) :
      Turn p b s fetched
        { s with
          committed, current, seen := s.seen ++ ids, extractor_failures := s.extractor_failures + 1
          failed := s.failed ++ [fetched] }

theorem is_unchanged_eq_true {r : Registry} {fetched : NormalizedContent}
    (h : is_unchanged r fetched = true) :
    ∃ row, source_row r fetched = some row ∧ row.content_hash = fetched.content_hash := by
  simp only [is_unchanged, Option.any_eq_true, beq_iff_eq] at h
  exact h

theorem fail_source_turn (p : Platform) (b : Build) (s : SourceLoop) (fetched : NormalizedContent) :
    Turn p b s fetched (fail_source s fetched) := by
  have hnow : OnlyTouched s.committed { s.committed with now := s.current.now + 1 } :=
    .of_sameCore ⟨rfl, rfl, rfl, rfl, rfl⟩
  have htouch := hnow.trans (onlyTouched_touch_last_seen { s.committed with now := s.current.now + 1 } fetched)
  unfold fail_source
  simp only [SourceLoop.rollback]
  cases hid : (touch_last_seen { s.committed with now := s.current.now + 1 } fetched) with
  | mk r prior =>
    rw [hid] at htouch
    cases prior with
    | some prior_id =>
      exact .failed r.commit r.commit [prior_id]
        (htouch.trans (.of_sameCore (sameCore_commit r))) (.refl _)
    | none =>
      have hturn : Turn p b s fetched _ := .failed s.committed r [] (.refl _) htouch
      simpa using hturn

/-- Every turn of the loop is one of the four. -/
theorem process_source_turn {p : Platform} {b : Build} {s : SourceLoop} (hwf : WellFormed p s.current)
    (hinj : Function.Injective p.gen_random_uuid) (fetched : NormalizedContent) :
    Turn p b s fetched (process_source p cached_generation b s fetched) := by
  unfold process_source
  split
  · rename_i hcode
    exact .collected ⟨fetched, _, _, _⟩ hcode rfl ⟨rfl, rfl⟩ rfl
  · rename_i hprose
    split
    · rename_i hunchanged
      obtain ⟨row, hrow, hhash⟩ := is_unchanged_eq_true hunchanged
      obtain ⟨hmem, hsame⟩ := source_row_eq_some hrow
      have hid : (touch_last_seen s.current fetched).2 = some row.source_id := by
        simp [touch_last_seen, hrow]
      simp only [hid, Option.toList_some]
      exact .unchanged _ row hmem hsame hhash (onlyTouched_touch_last_seen _ _)
    · rename_i hchanged
      split
      · rename_i r id hprocess
        obtain ⟨added, hprocessed, hadded⟩ := processed_changed_source hwf hinj hprocess
        have hcommit : Processed p s.current r.commit fetched id added :=
          { hprocessed with
            advanced := ⟨hprocessed.advanced.row, hprocessed.advanced.others, hprocessed.advanced.prior,
              hprocessed.advanced.persist⟩
            wellFormed := hprocessed.wellFormed.of_sameCore (sameCore_commit r) }
        exact .processed r.commit id added (by simpa using hprose) (by simpa using hchanged) hcommit hadded
      · exact fail_source_turn p b s fetched

/-- What holds of the loop between two sources, whatever they are. -/
structure LoopWellFormed (p : Platform) (n : Nat) (s : SourceLoop) : Prop where
  committed : WellFormed p s.committed
  touched : OnlyTouched s.committed s.current
  build_seq : s.committed.build_seq = n
  rows : RowsExist s.committed s.code_units

namespace LoopWellFormed

variable {p : Platform} {b : Build} {n : Nat} {s s' : SourceLoop} {fetched : NormalizedContent}

theorem current (h : LoopWellFormed p n s) : WellFormed p s.current := h.touched.wellFormed h.committed

theorem current_build_seq (h : LoopWellFormed p n s) : s.current.build_seq = n :=
  h.touched.build_seq.trans h.build_seq

theorem start {r : Registry} (h : WellFormed p r) :
    LoopWellFormed p r.build_seq { committed := r, current := r } :=
  ⟨h, .refl r, rfl, by simp [RowsExist]⟩

private theorem rows_persist {r r' : Registry} {units : List CodeUnit} (h : RowsExist r units)
    (hpersist : ∀ s ∈ r.source_items, ∃ s' ∈ r'.source_items, s'.source_id = s.source_id ∧ s'.key = s.key) :
    RowsExist r' units := by
  intro unit hunit hunchanged
  obtain ⟨s, hs, hsame⟩ := h unit hunit hunchanged
  obtain ⟨s', hs', -, hkey⟩ := hpersist s hs
  rw [same_source_iff] at hsame
  exact ⟨s', hs', same_source_iff.2 (hkey.trans hsame)⟩

private theorem rows_touched {r r' : Registry} {units : List CodeUnit} (h : RowsExist r units)
    (htouch : OnlyTouched r r') : RowsExist r' units := by
  refine rows_persist h fun s hs => ?_
  obtain ⟨s', hs', hk⟩ := htouch.source_items.successor hs
  exact ⟨s', hs', hk.1, hk.2.1⟩

theorem current_rows (h : LoopWellFormed p n s) : RowsExist s.current s.code_units :=
  rows_touched h.rows h.touched

/-- Every turn keeps the loop well formed. -/
theorem turn (h : LoopWellFormed p n s) (hturn : Turn p b s fetched s') : LoopWellFormed p n s' := by
  cases hturn with
  | collected unit hcode hunit hrepo hchanged =>
    refine { h with rows := ?_ }
    intro u hu hunchanged
    rcases List.mem_append.1 hu with hu | hu
    · exact h.rows u hu hunchanged
    · rw [List.mem_singleton.1 hu] at hunchanged ⊢
      rw [hchanged, Bool.not_eq_false'] at hunchanged
      obtain ⟨row, hrow, -⟩ := is_unchanged_eq_true hunchanged
      obtain ⟨hmem, hsame⟩ := source_row_eq_some hrow
      obtain ⟨row₀, hrow₀, hk⟩ := h.touched.origin hmem
      rw [same_source_iff] at hsame
      exact ⟨row₀, hrow₀, same_source_iff.2 (by rw [hunit, ← hk.2.1]; exact hsame)⟩
  | unchanged r row hrow hsame hhash htouch =>
    exact { h with touched := h.touched.trans htouch }
  | processed r id added hprose hchanged hprocessed hadded =>
    exact
      { committed := hprocessed.wellFormed
        touched := .refl r
        build_seq := hprocessed.build_seq.trans h.current_build_seq
        rows := rows_persist h.current_rows hprocessed.advanced.persist }
  | failed committed current ids hcommitted hcurrent =>
    exact
      { committed := hcommitted.wellFormed h.committed
        touched := hcurrent
        build_seq := hcommitted.build_seq.trans h.build_seq
        rows := rows_touched h.rows hcommitted }

end LoopWellFormed

end AgenticKb

import AgenticKb.Application.Interleaving
import AgenticKb.Effects.Build

open AgenticKb.Lib

namespace AgenticKb

section Clients

@[simp] theorem Builder.other_other (b : Builder) : b.other.other = b := by cases b <;> rfl

/-- A build is the one or the other. -/
theorem Builder.eq_or_other (b b' : Builder) : b' = b ∨ b' = b.other := by
  cases b <;> cases b' <;> simp [Builder.other]

namespace Shared

variable (s : Shared) (c : Client) (b : Builder)

@[simp] theorem client_set_client : (s.set_client c b).client b = c := by cases b <;> rfl

@[simp] theorem client_set_client_other : (s.set_client c b).client b.other = s.client b.other := by
  cases b <;> rfl

@[simp] theorem client_other_set_client : (s.set_client c b.other).client b = s.client b := by
  cases b <;> rfl

@[simp] theorem committed_set_client : (s.set_client c b).committed = s.committed := by cases b <;> rfl

@[simp] theorem clock_set_client : (s.set_client c b).clock = s.clock := by cases b <;> rfl

end Shared

end Clients

section Rows

variable {p : Platform} {started : Timestamp} {keys : List (SourceType × String)} {r : Registry}

/-- The rows of these keys were last recorded at `started` or later. -/
def RecordedSince (started : Timestamp) (keys : List (SourceType × String)) (r : Registry) : Prop :=
  ∀ row ∈ r.source_items, row.key ∈ keys → started ≤ row.last_recorded

/-- A statement of a transaction that began at `started` or later keeps what was recorded since, and adds the
rows it records. -/
theorem recordedSince_run (h : RecordedSince started keys r) (hnow : started ≤ r.now) (statement : Statement) :
    RecordedSince started (keys ++ statement.recorded) (statement.run p r) := by
  have hwritten : ∀ (set : SourceItem → SourceItem) (fetched : NormalizedContent),
      (∀ s, (set s).key = s.key ∧ (set s).last_seen_at = some r.now) →
      ∀ row ∈ update_where r.source_items (same_source fetched) set,
        row.key ∈ keys ++ [fetched.key] → started ≤ row.last_recorded := by
    intro set fetched hset row hrow hkey
    obtain ⟨old, hold, rfl⟩ := List.mem_map.1 hrow
    by_cases hsame : same_source fetched old = true
    · rw [if_pos hsame, SourceItem.last_recorded, (hset old).2]
      exact hnow
    · rw [if_neg hsame] at hkey ⊢
      refine h old hold ((List.mem_append.1 hkey).resolve_right fun hnew => hsame ?_)
      exact same_source_iff.2 (List.mem_singleton.1 hnew)
  cases statement with
  | touch fetched => exact hwritten _ fetched fun _ => ⟨rfl, rfl⟩
  | upsert fetched =>
    change RecordedSince started (keys ++ [fetched.key]) (upsert_source_item p r fetched).1
    unfold upsert_source_item
    cases hrow : source_row r fetched with
    | some existing => exact hwritten _ fetched fun _ => ⟨rfl, rfl⟩
    | none =>
      intro row hmem hkey
      rcases List.mem_append.1 hmem with hold | hnew
      · refine h row hold ((List.mem_append.1 hkey).resolve_right fun hsame => ?_)
        have hnone := List.find?_eq_none.1 hrow row hold
        exact hnone (same_source_iff.2 (List.mem_singleton.1 hsame))
      · rw [List.mem_singleton.1 hnew]
        exact hnow
  | tombstone ids =>
    intro row hmem hkey
    obtain ⟨old, hold, rfl⟩ := List.mem_map.1 hmem
    simp only [Statement.recorded, List.append_nil] at hkey
    split at hkey
    · rw [if_pos (by assumption)]
      exact h old hold hkey
    · rw [if_neg (by assumption)]
      exact h old hold hkey

theorem now_run (statement : Statement) : (statement.run p r).now = r.now := by
  cases statement with
  | touch fetched => rfl
  | upsert fetched =>
    simp only [Statement.run, upsert_source_item]
    split <;> rfl
  | tombstone ids => rfl

/-- A whole transaction that began at `started` or later. -/
theorem recordedSince_view {t : Transaction} {statements : List Statement}
    (h : RecordedSince started keys r) (hbegan : started ≤ t.began) (hstatements : t.statements = statements) :
    RecordedSince started (keys ++ statements.flatMap Statement.recorded) (t.view p r) := by
  unfold Transaction.view
  rw [hstatements]
  suffices hgo : ∀ mid keys, RecordedSince started keys mid → started ≤ mid.now →
      RecordedSince started (keys ++ statements.flatMap Statement.recorded)
        (statements.foldl (Statement.run p) mid) from hgo _ keys h hbegan
  clear hstatements
  induction statements with
  | nil =>
    intro mid keys hmid _
    simpa using hmid
  | cons statement statements ih =>
    intro mid keys hmid hnow
    rw [List.flatMap_cons, ← List.append_assoc]
    exact ih _ _ (recordedSince_run hmid hnow statement) (by rwa [now_run])

end Rows

section Guard

variable {p : Platform} {s : Shared}

/-- What a build records after the other one has started, it records in a transaction that began after that
start. -/
def RecordedInTime (s : Shared) : Event → Prop
  | .execute b _ _ => ∀ t ∈ (s.client b).transaction, ∀ started ∈ (s.client b.other).started_at,
      started ≤ t.began
  | _ => True

instance (s : Shared) (event : Event) : Decidable (RecordedInTime s event) := by
  cases event <;> unfold RecordedInTime <;> infer_instance

/-- What the interleaving keeps about the fence of build `b`. -/
structure FencedFor (s : Shared) (b : Builder) : Prop where
  clock : ∀ started ∈ (s.client b).started_at, started ≤ s.clock
  own : ∀ t ∈ (s.client b).transaction, ∃ started ∈ (s.client b).started_at, started ≤ t.began
  /-- The other's open transaction has recorded its late rows, all of them in time. -/
  late : ∀ t ∈ (s.client b.other).transaction, ∀ key ∈ t.late, key ∈ t.statements.flatMap Statement.recorded
  in_time : ∀ started ∈ (s.client b).started_at, ∀ t ∈ (s.client b.other).transaction,
    t.late ≠ [] ∨ (s.client b).fenced ≠ [] → started ≤ t.began
  recorded : ∀ started ∈ (s.client b).started_at, RecordedSince started (s.client b).fenced s.committed
  unstarted : (s.client b).started_at = none → (s.client b).fenced = [] ∧
    ∀ t ∈ (s.client b.other).transaction, t.late = []

theorem fencedFor_start (h : ∀ b, FencedFor s b) (a b : Builder) : FencedFor (s.step p (.start a)) b := by
  simp only [Shared.step]
  split
  · rename_i hnone
    rw [Option.isNone_iff_eq_none] at hnone
    obtain ⟨hfenced, hlate⟩ := (h a).unstarted hnone
    rcases a.eq_or_other b with rfl | rfl
    · refine ⟨?_, ?_, ?_, ?_, ?_, ?_⟩
      · simp
      · intro t ht
        obtain ⟨started, hstarted, -⟩ := (h b).own t (by simpa using ht)
        simp [hnone] at hstarted
      · simpa using (h b).late
      · intro started _ t ht hany
        simp only [Shared.client_set_client, Shared.client_set_client_other] at ht hany
        simp [hfenced, hlate t ht] at hany
      · intro started _ row _ hkey
        simp [hfenced] at hkey
      · simp
    · have hb := h a.other
      exact ⟨by simpa using hb.clock, by simpa using hb.own, by simpa using hb.late, by simpa using hb.in_time,
        by simpa using hb.recorded, by simpa using hb.unstarted⟩
  · exact h b

theorem fencedFor_begin (h : ∀ b, FencedFor s b) (a b : Builder) : FencedFor (s.step p (.begin a)) b := by
  simp only [Shared.step]
  split
  · rename_i hready
    simp only [Bool.and_eq_true, Option.isSome_iff_exists, Option.isNone_iff_eq_none] at hready
    obtain ⟨⟨started, hstarted⟩, -⟩ := hready
    rcases a.eq_or_other b with rfl | rfl
    · have hb := h b
      refine ⟨by simpa using hb.clock, ?_, by simpa using hb.late, by simpa using hb.in_time,
        by simpa using hb.recorded, by simpa using hb.unstarted⟩
      intro t ht
      simp only [Shared.client_set_client, Option.mem_def, Option.some.injEq] at ht
      refine ⟨started, by simpa using hstarted, ?_⟩
      rw [← ht]
      exact hb.clock started hstarted
    · have hb := h a.other
      refine ⟨by simpa using hb.clock, by simpa using hb.own, by simp, ?_, by simpa using hb.recorded, ?_⟩
      · intro started hstarted t ht _
        simp only [Builder.other_other, Shared.client_set_client, Option.mem_def, Option.some.injEq] at ht
        rw [← ht]
        exact hb.clock started (by simpa using hstarted)
      · intro hnone
        exact ⟨by simpa using (hb.unstarted (by simpa using hnone)).1, by simp⟩
  · exact h b

theorem fencedFor_execute (h : ∀ b, FencedFor s b) (a b : Builder) {statement : Statement}
    (hin : statement.recorded = [] ∨ ∀ t ∈ (s.client a).transaction,
      ∀ started ∈ (s.client a.other).started_at, started ≤ t.began) :
    FencedFor (s.execute a statement) b := by
  unfold Shared.execute
  cases ht : (s.client a).transaction with
  | none => exact h b
  | some t =>
    rcases a.eq_or_other b with rfl | rfl
    · have hb := h b
      refine ⟨by simpa using hb.clock, ?_, by simpa using hb.late, by simpa using hb.in_time,
        by simpa using hb.recorded, by simpa using hb.unstarted⟩
      intro t' ht'
      simp only [Shared.client_set_client, Option.mem_def, Option.some.injEq] at ht' ⊢
      rw [← ht']
      exact hb.own t ht
    · have hb := h a.other
      have hlate := hb.late t (by simpa using ht)
      have hin_time := fun started hstarted => hb.in_time started hstarted t (by simpa using ht)
      refine ⟨by simpa using hb.clock, by simpa using hb.own, ?_, ?_, by simpa using hb.recorded, ?_⟩
      · intro t' ht' key hkey
        simp only [Builder.other_other, Shared.client_set_client, Option.mem_def, Option.some.injEq] at ht'
        rw [← ht'] at hkey ⊢
        rw [List.flatMap_append, List.mem_append]
        dsimp only at hkey
        split at hkey
        · refine (List.mem_append.1 hkey).imp (hlate key) fun hnew => ?_
          simpa using hnew
        · exact .inl (hlate key hkey)
      · intro started hstarted t' ht' hany
        simp only [Builder.other_other, Shared.client_set_client, Shared.client_set_client_other,
          Option.mem_def, Option.some.injEq] at ht' hany hstarted
        rw [← ht'] at hany ⊢
        cases hin with
        | inl hnil =>
          refine hin_time started hstarted (hany.imp_left fun hne => ?_)
          simpa [hnil] using hne
        | inr hbegan => exact hbegan t ht started hstarted
      · intro hnone
        have hnone' : (s.client a.other).started_at = none := by simpa using hnone
        refine ⟨by simpa using (hb.unstarted hnone').1, ?_⟩
        intro t' ht'
        simp only [Builder.other_other, Shared.client_set_client, Option.mem_def, Option.some.injEq] at ht'
        rw [← ht']
        simpa [hnone'] using (hb.unstarted hnone').2 t (by simpa using ht)

theorem fencedFor_commit (h : ∀ b, FencedFor s b) (a b : Builder) : FencedFor (s.commit p a) b := by
  unfold Shared.commit
  cases ht : (s.client a).transaction with
  | none => exact h b
  | some t =>
    rcases a.eq_or_other b with rfl | rfl
    · have hb := h b
      refine ⟨by simpa using hb.clock, by simp, by simpa using hb.late, by simpa using hb.in_time, ?_,
        by simpa using hb.unstarted⟩
      intro started hstarted
      simp only [Shared.client_other_set_client, Shared.client_set_client, Shared.committed_set_client]
        at hstarted ⊢
      obtain ⟨started', hstarted', hbegan⟩ := hb.own t ht
      rw [hstarted, Option.mem_some_iff] at hstarted'
      rw [← hstarted'] at hbegan
      intro row hrow hkey
      exact recordedSince_view (hb.recorded started hstarted) hbegan rfl row hrow (List.mem_append_left _ hkey)
    · have hb := h a.other
      have ht' : t ∈ (s.client a.other.other).transaction := by simpa using ht
      refine ⟨by simpa using hb.clock, by simpa using hb.own, by simp, by simp, ?_, ?_⟩
      · intro started hstarted row hrow hkey
        simp only [Shared.client_set_client, Shared.committed_set_client] at hstarted hrow hkey
        by_cases hany : t.late ≠ [] ∨ (s.client a.other).fenced ≠ []
        · have hview := recordedSince_view (p := p) (hb.recorded started hstarted)
            (hb.in_time started hstarted t ht' hany) rfl
          refine hview row hrow (List.mem_append.2 ((List.mem_append.1 hkey).imp_right ?_))
          exact hb.late t ht' row.key
        · simp only [not_or, not_not] at hany
          rw [hany.1, hany.2] at hkey
          simp at hkey
      · intro hnone
        have hnone' : (s.client a.other).started_at = none := by simpa using hnone
        obtain ⟨hfenced, hlate⟩ := hb.unstarted hnone'
        refine ⟨?_, by simp⟩
        simp only [Shared.client_set_client, hfenced, hlate t ht', List.append_nil]

/-- Every event that records in time keeps both fences. -/
theorem fenced_step (h : ∀ b, FencedFor s b) {event : Event} (hin : RecordedInTime s event) (b : Builder) :
    FencedFor (s.step p event) b := by
  cases event with
  | tick =>
    have hb := h b
    exact ⟨fun started hs => (hb.clock started hs).trans (Nat.le_succ _), hb.own, hb.late, hb.in_time,
      hb.recorded, hb.unstarted⟩
  | start a => exact fencedFor_start h a b
  | begin a => exact fencedFor_begin h a b
  | execute a fetched changed => exact fencedFor_execute h a b (.inr hin)
  | sweep a seen =>
    simp only [Shared.step]
    split
    · exact fencedFor_execute h a b (.inl rfl)
    · exact h b
  | commit a => exact fencedFor_commit h a b
  | rollback a =>
    simp only [Shared.step]
    rcases a.eq_or_other b with rfl | rfl
    · have hb := h b
      exact ⟨by simpa using hb.clock, by simp, by simpa using hb.late, by simpa using hb.in_time,
        by simpa using hb.recorded, by simpa using hb.unstarted⟩
    · have hb := h a.other
      exact ⟨by simpa using hb.clock, by simpa using hb.own, by simp, by simp, by simpa using hb.recorded,
        fun hnone => ⟨by simpa using (hb.unstarted (by simpa using hnone)).1, by simp⟩⟩

/-- What a build reads of the rows it must not take as vanished was recorded since it started. -/
theorem FencedFor.recordedSince_view {b : Builder} (h : FencedFor s b) {started : Timestamp}
    (hstarted : started ∈ (s.client b).started_at) :
    RecordedSince started (s.client b).fenced (s.view p b) := by
  unfold Shared.view
  cases ht : (s.client b).transaction with
  | none => exact h.recorded started hstarted
  | some t =>
    obtain ⟨started', hstarted', hbegan⟩ := h.own t ht
    rw [hstarted, Option.mem_some_iff] at hstarted'
    rw [← hstarted'] at hbegan
    intro row hrow hkey
    exact AgenticKb.recordedSince_view (h.recorded started hstarted) hbegan rfl row hrow
      (List.mem_append_left _ hkey)

end Guard

section Sweep

variable {p : Platform}

theorem wellFormed_run {r : Registry} (h : WellFormed p r) (hinj : Function.Injective p.gen_random_uuid)
    (statement : Statement) : WellFormed p (statement.run p r) := by
  cases statement with
  | touch fetched => exact (onlyTouched_touch_last_seen r fetched).wellFormed h
  | upsert fetched => exact h.upsert_source_item fetched hinj
  | tombstone ids =>
    exact h.set_sources ((tableStep_tombstone r ids).mono (fun _ _ _ hk => hk ▸ ⟨rfl, rfl⟩) fun _ hf => hf)

theorem wellFormed_transaction {committed : Registry} (h : WellFormed p committed)
    (hinj : Function.Injective p.gen_random_uuid) (t : Transaction) : WellFormed p (t.view p committed) := by
  apply foldl_invariant (I := WellFormed p)
  · exact fun _ statement _ hr => wellFormed_run hr hinj statement
  · exact h.of_sameCore ⟨rfl, rfl, rfl, rfl, rfl⟩

theorem wellFormed_step {s : Shared} (h : WellFormed p s.committed) (hinj : Function.Injective p.gen_random_uuid)
    (event : Event) : WellFormed p (s.step p event).committed := by
  have hexecute : ∀ b statement, (s.execute b statement).committed = s.committed := by
    intro b statement
    unfold Shared.execute
    split
    · exact Shared.committed_set_client ..
    · rfl
  cases event with
  | tick => exact h
  | start b =>
    simp only [Shared.step]
    split
    · rwa [Shared.committed_set_client]
    · exact h
  | begin b =>
    simp only [Shared.step]
    split
    · rwa [Shared.committed_set_client]
    · exact h
  | execute b fetched changed => exact (hexecute b _).symm ▸ h
  | sweep b seen =>
    simp only [Shared.step]
    split
    · exact (hexecute b _).symm ▸ h
    · exact h
  | commit b =>
    simp only [Shared.step, Shared.commit]
    split
    · rw [Shared.committed_set_client, Shared.committed_set_client]
      exact wellFormed_transaction h hinj _
    · exact h
  | rollback b =>
    simp only [Shared.step]
    rwa [Shared.committed_set_client]

/-- The sweep of build `b`, whenever it runs and whatever the build has seen, leaves alone the live rows the
other build recorded after `b` started and has committed: they are neither tombstoned nor the old side of a
rename. -/
def SparesConcurrent (p : Platform) (s : Shared) (b : Builder) : Prop :=
  ∀ started ∈ (s.client b).started_at, ∀ row ∈ (s.view p b).source_items, row.is_deleted = false →
    row.key ∈ (s.client b).fenced → ∀ (n : Nat) (seen changed : List Uuid),
      (∀ rename ∈ detected_renames (s.view p b) (vanished_live_sources (s.view p b) seen started) n,
        rename.old_source_id ≠ row.source_id) ∧
      ∀ r' ∈ run_invalidation_pass (s.view p b) n seen changed started, row ∈ r'.source_items

theorem sparesConcurrent_of_fenced {s : Shared} {b : Builder} (hwf : WellFormed p (s.view p b))
    (h : FencedFor s b) : SparesConcurrent p s b := by
  intro started hstarted row hrow hlive hkey n seen changed
  have hsince := h.recordedSince_view hstarted row hrow hkey
  have hkept : row.source_id ∉ vanished_live_sources (s.view p b) seen started := by
    intro hmem
    obtain ⟨other, hother, hid⟩ := List.mem_map.1 hmem
    simp only [List.mem_filter, Bool.and_eq_true, decide_eq_true_eq] at hother
    rw [eq_of_key_eq hwf.source_ids hother.1 hrow hid] at hother
    exact absurd hother.2.2 (not_lt.2 hsince)
  constructor
  · intro rename hrename heq
    exact hkept (heq ▸ (isRename_of_mem hrename).vanished)
  · intro r' hr'
    exact mem_source_items_run_invalidation_pass hr' hrow hkept

theorem fencedFor_init (committed : Registry) (clock : Timestamp) (b : Builder) :
    FencedFor { clock, committed } b := by
  cases b <;> constructor <;> simp [Shared.client, Builder.other]

/-- Two builds on a registry that earlier builds left: over every interleaving in which each build records in
time, neither takes a row that the other has recorded and committed since its start as vanished. -/
theorem concurrent_rows_spared (hinj : Function.Injective p.gen_random_uuid) (builds : List Build)
    (clock : Timestamp) (events : List Event)
    (hin : Along (Shared.step p) RecordedInTime
      { clock, committed := history p cached_generation builds } events) (b : Builder) :
    SparesConcurrent p (events.foldl (Shared.step p)
      { clock, committed := history p cached_generation builds }) b := by
  have hinv := Along.invariant (I := fun s : Shared => WellFormed p s.committed ∧ ∀ b, FencedFor s b)
    (fun s event _ hs hok => ⟨wellFormed_step hs.1 hinj event, fenced_step hs.2 hok⟩)
    ⟨wellFormed_history hinj builds, fencedFor_init _ clock⟩ hin
  refine sparesConcurrent_of_fenced ?_ (hinv.2 b)
  unfold Shared.view
  split
  · exact wellFormed_transaction hinv.1 hinj _
  · exact hinv.1

/-- A page written in a transaction that began with the other build. -/
theorem page_recorded_in_time_spared :
    (([.start .first, .tick, .start .second, .begin .first,
        .execute .first (Platform.plain.fetch (.page "d", "A")) true, .commit .first] : List Event).foldl
        (Shared.step .plain) { clock := 0, committed := history .plain cached_generation [] }).second.fenced =
      [(.azure_wiki, "d")] ∧
    SparesConcurrent .plain (([.start .first, .tick, .start .second, .begin .first,
        .execute .first (Platform.plain.fetch (.page "d", "A")) true, .commit .first] : List Event).foldl
        (Shared.step .plain) { clock := 0, committed := history .plain cached_generation [] }) .second :=
  ⟨by decide +kernel, concurrent_rows_spared (fun _ _ h => h) [] 0 _ (by decide +kernel) .second⟩

/-- A page written after the other build started, in a transaction that began before: its record bears the
transaction's start, and the other build's sweep takes it as vanished. -/
theorem page_recorded_late_tombstoned :
    ¬ SparesConcurrent .plain (([.start .first, .begin .first, .tick, .start .second,
        .execute .first (Platform.plain.fetch (.page "d", "A")) true, .commit .first] : List Event).foldl
        (Shared.step .plain) { clock := 0, committed := history .plain cached_generation [] }) .second := by
  set s := ([.start .first, .begin .first, .tick, .start .second,
    .execute .first (Platform.plain.fetch (.page "d", "A")) true, .commit .first] : List Event).foldl
    (Shared.step .plain) { clock := 0, committed := history .plain cached_generation [] } with hs
  intro h
  obtain ⟨row, hrow, hlive, hkey, hgone⟩ : ∃ row ∈ (s.view .plain .second).source_items,
      row.is_deleted = false ∧ row.key ∈ s.second.fenced ∧
      ∃ r' ∈ run_invalidation_pass (s.view .plain .second) 1 [] [] 1, row ∉ r'.source_items := by
    decide +kernel
  obtain ⟨r', hr', hmissing⟩ := hgone
  exact hmissing ((h 1 (by decide +kernel) row hrow hlive hkey 1 [] []).2 r' hr')

end Sweep

end AgenticKb

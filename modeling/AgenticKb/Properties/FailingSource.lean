import Mathlib.Data.List.Find
import AgenticKb.Effects.Build

open AgenticKb.Lib

namespace AgenticKb

section Turns

variable (p : Platform) (gate : GenerationGate) (b : Build)

/-- The source raises inside its processing. -/
def fails (s : SourceLoop) (fetched : NormalizedContent) : Bool :=
  !is_code_file fetched && !is_unchanged s.current fetched &&
    (process_changed_source p gate b s.current fetched).isNone

/-- A source is not processed, but its row, if it has one, still counts as seen. -/
def count_seen (s : SourceLoop) (fetched : NormalizedContent) : SourceLoop :=
  let s := { s with extractor_failures := s.extractor_failures + 1, failed := s.failed ++ [fetched] }
  match touch_last_seen s.current fetched with
  | (r, some prior_id) => { s with current := r, seen := s.seen ++ [prior_id] }.commit
  | (r, none) => { s with current := r }

/-- The reference for a turn: a failing source is only counted as seen. The clock moves on as it does in the
build, so that the stamps of both are of the same moments. -/
def spare_source (s : SourceLoop) (fetched : NormalizedContent) : SourceLoop :=
  if fails p gate b s fetched then count_seen { s with current := s.current.commit } fetched
  else process_source p gate b s fetched

variable (turn : SourceLoop → NormalizedContent → SourceLoop)

/-- `process_sources`, with this turn. -/
def process_sources_by (r : Registry) : Except SourceLoop SourceLoop :=
  let s := (b.turns p).foldl turn (.start r)
  match b.fault with
  | some (.after_sources _) => .error s
  | fault =>
    if s.any_code_changed then
      if fault == some .in_graphify then .error s
      else match graphify_code_tree p b s with
        | some s => .ok s.commit
        | none => .error s
    else .ok (s.code_units.foldl touch_unit s)

/-- `run`, with this turn. -/
def run_by (r : Registry) : Outcome :=
  let build_id := r.fresh p
  let started := start_run p r b.kb_version
  match process_sources_by p b turn started with
  | .error s => fail_run build_id s
  | .ok s =>
    if b.fault == some .in_finalize || !s.current.runs.any (·.build_id == build_id) then
      fail_run build_id s
    else match finalize_graph p b s.current s.seen s.changed r.now with
      | some passes =>
        { registry := finish_run passes.mined build_id .completed s.extractor_failures
          sources := s, finalized := some passes }
      | none => fail_run build_id s

/-- With the turn of the source loop they are those of the build. -/
theorem run_by_process_source (r : Registry) : run_by p b (process_source p gate b) r = run p gate r b := by
  have hsources : ∀ started, process_sources_by p b (process_source p gate b) started =
      process_sources p gate b started := by
    intro started
    unfold process_sources_by process_sources Build.turns
    cases b.fault with
    | none => rfl
    | some fault => cases fault <;> rfl
  unfold run_by run
  dsimp only
  rewrite [hsources]
  rfl

end Turns

section Loops

variable (p : Platform) (gate : GenerationGate) (b : Build)

/-- The source loop of the build after these sources. -/
def loop_after (r : Registry) (sources : List NormalizedContent) : SourceLoop :=
  sources.foldl (process_source p gate b) (.start (start_run p r b.kb_version))

/-- The same when a failing source is only counted as seen. -/
def spared_after (r : Registry) (sources : List NormalizedContent) : SourceLoop :=
  sources.foldl (spare_source p gate b) (.start (start_run p r b.kb_version))

/-- What a build commits for a source: its row, with its stamp, access list and content hash, and its
artifacts. -/
def effects_of (r : Registry) (fetched : NormalizedContent) : List SourceItem × List KnowledgeArtifact :=
  let rows := r.source_items.filter (same_source fetched)
  (rows, r.artifacts.filter fun a => rows.any fun row => row.source_id == a.source_id)

/-- For every source that does not fail, whatever is listed before and after it: what a commit after any of
the later sources holds for it, and what the build leaves of it in the end, is as if the failing sources had
only been counted as seen. -/
def FailuresCostThemselves (r : Registry) : Prop :=
  ∀ before fetched after, b.turns p = before ++ fetched :: after →
    fails p gate b (loop_after p gate b r before) fetched = false →
      (∀ later, later <+: after →
        effects_of (loop_after p gate b r (before ++ fetched :: later)).commit.committed fetched =
          effects_of (spared_after p gate b r (before ++ fetched :: later)).commit.committed fetched) ∧
        effects_of (run p gate r b).registry fetched =
          effects_of (run_by p b (spare_source p gate b) r).registry fetched

/-- When a source fails, the rows of all others are as committed: the open transaction has touched none. -/
def OthersCommitted (s : SourceLoop) (fetched : NormalizedContent) : Prop :=
  fails p gate b s fetched = true →
    s.current.source_items.filter (fun row => !same_source fetched row) =
      s.committed.source_items.filter fun row => !same_source fetched row

instance (s : SourceLoop) (fetched : NormalizedContent) : Decidable (OthersCommitted p gate b s fetched) :=
  inferInstanceAs (Decidable (_ → _))

end Loops

section Open

variable {p : Platform} {gate : GenerationGate} {b : Build} {s : SourceLoop} {fetched : NormalizedContent}

/-- The row with another last record and access list. -/
def TouchOf (row row' : SourceItem) : Prop :=
  row' = { row with last_seen_at := row'.last_seen_at, acl_teams := row'.acl_teams }

/-- The open transaction has touched some of these rows, and done nothing else. -/
structure OpenTouches (mine : SourceItem → Prop) (s : SourceLoop) : Prop where
  rest : s.current = { s.committed with source_items := s.current.source_items, now := s.current.now }
  rows : ∃ f, s.current.source_items = s.committed.source_items.map f ∧
    ∀ row ∈ s.committed.source_items, TouchOf row (f row) ∧ (mine row ∨ f row = row)

namespace OpenTouches

variable {mine mine' : SourceItem → Prop}

theorem of_committed (h : s.current = s.committed) : OpenTouches mine s where
  rest := by rw [h]
  rows := ⟨id, by rw [h, List.map_id], fun row _ => ⟨rfl, .inr rfl⟩⟩

theorem mono (h : OpenTouches mine s) (himp : ∀ row, mine row → mine' row) : OpenTouches mine' s where
  rest := h.rest
  rows := by
    obtain ⟨f, hrows, hf⟩ := h.rows
    exact ⟨f, hrows, fun row hrow => ⟨(hf row hrow).1, (hf row hrow).2.imp_left (himp row)⟩⟩

theorem touch (h : OpenTouches mine s) (himp : ∀ row, mine row → mine' row)
    (hmine : ∀ row, same_source fetched row = true → mine' row) (seen : List Uuid) :
    OpenTouches mine' { s with current := (touch_last_seen s.current fetched).1, seen } := by
  obtain ⟨f, hrows, hf⟩ := h.rows
  constructor
  · dsimp only [touch_last_seen]
    rw [h.rest]
  · refine ⟨fun row => if same_source fetched (f row) then
        { f row with last_seen_at := some s.current.now, acl_teams := fetched.source.acl_teams } else f row, ?_, ?_⟩
    · simp only [touch_last_seen, update_where, hrows, List.map_map, Function.comp_def]
    · intro row hrow
      obtain ⟨htouch, hsame⟩ := hf row hrow
      have hkey : same_source fetched (f row) = same_source fetched row := by
        rw [htouch]
        rfl
      dsimp only
      split
      · rename_i hfound
        refine ⟨?_, .inl (hmine row (hkey ▸ hfound))⟩
        unfold TouchOf at htouch ⊢
        rw [htouch]
      · exact ⟨htouch, hsame.imp_left (himp row)⟩

/-- When the other rows are as committed, touching the row of the source comes to the same before and after the
open transaction is rolled back. -/
theorem touch_rollback (h : OpenTouches mine s)
    (hothers : s.current.source_items.filter (fun row => !same_source fetched row) =
      s.committed.source_items.filter fun row => !same_source fetched row) :
    touch_last_seen s.rollback.current fetched = touch_last_seen s.current.commit fetched := by
  obtain ⟨f, hrows, hf⟩ := h.rows
  have hkey : ∀ row ∈ s.committed.source_items, same_source fetched (f row) = same_source fetched row := by
    intro row hrow
    rw [(hf row hrow).1]
    rfl
  have hsame : ∀ row ∈ s.committed.source_items, (!same_source fetched row) = true → f row = row := by
    rw [hrows] at hothers
    exact (filter_map_eq_iff fun row hrow => by rw [hkey row hrow]).1 hothers
  have htable : ∀ now : Timestamp, update_where s.committed.source_items (same_source fetched) (fun row =>
        { row with last_seen_at := some now, acl_teams := fetched.source.acl_teams }) =
      update_where s.current.source_items (same_source fetched) fun row =>
        { row with last_seen_at := some now, acl_teams := fetched.source.acl_teams } := by
    intro now
    rw [hrows]
    simp only [update_where, List.map_map]
    apply List.map_congr_left
    intro row hrow
    simp only [Function.comp_apply, hkey row hrow]
    split
    · rw [(hf row hrow).1]
    · rename_i hother
      rw [hsame row hrow (by rw [Bool.eq_false_iff.2 hother, Bool.not_false])]
  have hrow : (source_row s.committed fetched).map (·.source_id) =
      (source_row s.current fetched).map (·.source_id) := by
    have hfind : s.committed.source_items.find? (same_source fetched ∘ f) =
        s.committed.source_items.find? (same_source fetched) := List.find?_congr hkey
    unfold source_row
    rw [hrows, List.find?_map, hfind, Option.map_map]
    cases hfound : s.committed.source_items.find? (same_source fetched) with
    | none => rfl
    | some row =>
      simp only [Option.map_some, Function.comp_apply, Option.some.injEq]
      rw [(hf row (List.mem_of_find?_eq_some hfound)).1]
  unfold touch_last_seen
  refine Prod.ext ?_ hrow
  dsimp only [SourceLoop.rollback, Registry.commit]
  rw [htable]
  conv_rhs => rw [h.rest]

end OpenTouches

/-- The row of one of the sources that did not fail. -/
def RowOfSpared (p : Platform) (gate : GenerationGate) (b : Build) (r : Registry)
    (done : List NormalizedContent) (row : SourceItem) : Prop :=
  ∃ before fetched after, done = before ++ fetched :: after ∧
    fails p gate b (loop_after p gate b r before) fetched = false ∧ same_source fetched row = true

variable {r : Registry} {done : List NormalizedContent}

theorem RowOfSpared.append {row : SourceItem} (h : RowOfSpared p gate b r done row) :
    RowOfSpared p gate b r (done ++ [fetched]) row := by
  obtain ⟨before, f, after, rfl, hspared, hsame⟩ := h
  exact ⟨before, f, after ++ [fetched], by simp, hspared, hsame⟩

theorem loop_after_append : loop_after p gate b r (done ++ [fetched]) =
    process_source p gate b (loop_after p gate b r done) fetched := by
  simp [loop_after]

/-- A failing turn is one that rolls back. -/
theorem process_source_of_fails (h : fails p gate b s fetched = true) :
    process_source p gate b s fetched = count_seen s.rollback fetched := by
  simp only [fails, Bool.and_eq_true, Bool.not_eq_true', Option.isNone_iff_eq_none] at h
  obtain ⟨⟨hprose, hchanged⟩, hraise⟩ := h
  simp only [process_source, hprose, hchanged, hraise, Bool.false_eq_true, if_false]
  rfl

/-- Touching a source without a row does nothing. -/
theorem touch_last_seen_of_none {r : Registry} (h : (touch_last_seen r fetched).2 = none) :
    (touch_last_seen r fetched).1 = r := by
  have hnone : ∀ row ∈ r.source_items, ¬ same_source fetched row = true :=
    List.find?_eq_none.1 (Option.map_eq_none_iff.1 h)
  have htable : update_where r.source_items (same_source fetched) (fun row =>
      { row with last_seen_at := some r.now, acl_teams := fetched.source.acl_teams }) = r.source_items := by
    unfold update_where
    conv_rhs => rw [← List.map_id r.source_items]
    exact List.map_congr_left fun row hrow => if_neg (hnone row hrow)
  unfold touch_last_seen
  dsimp only
  rw [htable]

/-- A turn touches the row of its own source at most, and only when it does not fail. -/
theorem OpenTouches.turn {mine mine' : SourceItem → Prop} (h : OpenTouches mine s)
    (himp : ∀ row, mine row → mine' row)
    (hmine : fails p gate b s fetched = false → ∀ row, same_source fetched row = true → mine' row) :
    OpenTouches mine' (process_source p gate b s fetched) := by
  unfold process_source
  split
  · have hopen : OpenTouches mine' s := h.mono himp
    exact ⟨hopen.rest, hopen.rows⟩
  · split
    · rename_i hunchanged
      exact h.touch himp (hmine (by simp [fails, hunchanged])) _
    · split
      · exact .of_committed rfl
      · unfold fail_source
        dsimp only
        split
        · exact .of_committed rfl
        · rename_i hnone
          have hsame := touch_last_seen_of_none (congrArg Prod.snd hnone)
          rw [hnone] at hsame
          subst hsame
          exact ⟨rfl, id, by rw [List.map_id]; rfl, fun row _ => ⟨rfl, .inr rfl⟩⟩

/-- Between two sources the open transaction has touched rows of sources that did not fail. -/
theorem openTouches_loop_after (done : List NormalizedContent) :
    OpenTouches (RowOfSpared p gate b r done) (loop_after p gate b r done) := by
  induction done using List.reverseRecOn with
  | nil => exact .of_committed rfl
  | append_singleton done fetched ih =>
    rw [loop_after_append]
    exact ih.turn (fun _ => RowOfSpared.append) fun hspared _ hsame => ⟨done, fetched, [], rfl, hspared, hsame⟩

/-- A failing turn costs nothing when the others are committed. -/
theorem OpenTouches.spare_source_eq {mine : SourceItem → Prop} (h : OpenTouches mine s)
    (hothers : OthersCommitted p gate b s fetched) :
    process_source p gate b s fetched = spare_source p gate b s fetched := by
  unfold spare_source
  split
  · rename_i hfails
    have htouch := h.touch_rollback (hothers hfails)
    rw [process_source_of_fails hfails]
    unfold count_seen
    dsimp only
    rw [htouch]
    cases touch_last_seen s.current.commit fetched with
    | mk r prior => cases prior <;> rfl
  · rfl

/-- When the others are committed at every failing source, the build is the one in which they only count as
seen. -/
theorem foldl_spare_source (hrun : Along (process_source p gate b) (OthersCommitted p gate b)
    (.start (start_run p r b.kb_version)) done) :
    done.foldl (process_source p gate b) (.start (start_run p r b.kb_version)) =
      done.foldl (spare_source p gate b) (.start (start_run p r b.kb_version)) := by
  apply Along.foldl_congr (I := OpenTouches fun _ => True) _ _ _ (.of_committed rfl) hrun
  · exact fun s x _ h _ => h.turn (fun _ h => h) fun _ _ _ => trivial
  · exact fun s x _ h hothers => h.spare_source_eq hothers

/-- Counting a source as seen leaves the rows of the others alone. -/
theorem filter_count_seen {g : NormalizedContent} (hkey : g.key ≠ fetched.key) :
    (count_seen s fetched).commit.committed.source_items.filter (same_source g) =
      s.current.source_items.filter (same_source g) := by
  have hrows : (count_seen s fetched).commit.committed.source_items =
      (touch_last_seen s.current fetched).1.source_items := by
    unfold count_seen
    dsimp only
    cases touch_last_seen s.current fetched with
    | mk r prior => cases prior <;> rfl
  rw [hrows]
  refine (filter_map_eq_iff fun row _ => ?_).2 fun row _ hsame => if_neg fun hsame' => hkey ?_
  · split <;> rfl
  · rw [same_source_iff] at hsame hsame'
    exact hsame.symm.trans hsame'

/-- Where failing sources cost only themselves up to here, the next to fail finds the others committed. -/
theorem FailuresCostThemselves.others_committed (hcost : FailuresCostThemselves p gate b r)
    (hrun : Along (process_source p gate b) (OthersCommitted p gate b) (.start (start_run p r b.kb_version)) done)
    (hdone : done ++ [fetched] <+: b.turns p) : OthersCommitted p gate b (loop_after p gate b r done) fetched := by
  intro hfails
  have hopen : OpenTouches (RowOfSpared p gate b r done) (loop_after p gate b r done) := openTouches_loop_after done
  obtain ⟨f, hrows, hf⟩ := hopen.rows
  have hkeys : ∀ g : NormalizedContent, ∀ row ∈ (loop_after p gate b r done).committed.source_items,
      same_source g (f row) = same_source g row := by
    intro g row hrow
    rw [(hf row hrow).1]
    rfl
  rw [hrows]
  refine (filter_map_eq_iff fun row hrow => by rw [hkeys fetched row hrow]).2 fun row hrow hother => ?_
  cases (hf row hrow).2 with
  | inr hsame => exact hsame
  | inl hmine =>
    -- the touched row is of a source that did not fail, so what it lost shows after the failing one
    obtain ⟨before, g, after, rfl, hspared, hsame⟩ := hmine
    obtain ⟨rest, hrest⟩ := hdone
    have hturns : b.turns p = before ++ g :: (after ++ [fetched] ++ rest) := by simp [← hrest]
    have heffects := (hcost before g _ hturns hspared).1 (after ++ [fetched]) (List.prefix_append _ _)
    have hlist : before ++ g :: (after ++ [fetched]) = (before ++ g :: after) ++ [fetched] := by simp
    have hloops : spared_after p gate b r (before ++ g :: after) = loop_after p gate b r (before ++ g :: after) :=
      (foldl_spare_source hrun).symm
    have hspare : spared_after p gate b r ((before ++ g :: after) ++ [fetched]) =
        spare_source p gate b (spared_after p gate b r (before ++ g :: after)) fetched := by simp [spared_after]
    rw [hlist, loop_after_append, process_source_of_fails hfails, hspare, hloops, spare_source, if_pos hfails]
      at heffects
    have hkey : g.key ≠ fetched.key := by
      intro heq
      rw [same_source_iff, heq, ← same_source_iff] at hsame
      simp [hsame] at hother
    have hfilter := congrArg Prod.fst heffects
    unfold effects_of at hfilter
    dsimp only at hfilter
    rw [filter_count_seen hkey, filter_count_seen hkey] at hfilter
    have hcurrent : (loop_after p gate b r (before ++ g :: after)).current.source_items.filter (same_source g) =
        (loop_after p gate b r (before ++ g :: after)).committed.source_items.filter (same_source g) := hfilter.symm
    rw [hrows] at hcurrent
    exact (filter_map_eq_iff (hkeys g)).1 hcurrent row hrow hsame

/-- Failing sources cost only themselves exactly when none of them fails while the row of another is touched and
not yet committed. -/
theorem failures_cost_themselves_iff (p : Platform) (gate : GenerationGate) (b : Build) (r : Registry) :
    FailuresCostThemselves p gate b r ↔
      Along (process_source p gate b) (OthersCommitted p gate b) (.start (start_run p r b.kb_version))
        (b.turns p) := by
  constructor
  · intro hcost
    have hprefix : ∀ done, done <+: b.turns p → Along (process_source p gate b) (OthersCommitted p gate b)
        (.start (start_run p r b.kb_version)) done := by
      intro done
      induction done using List.reverseRecOn with
      | nil => exact fun _ => trivial
      | append_singleton done fetched ih =>
        intro hdone
        have hrun := ih ((List.prefix_append done [fetched]).trans hdone)
        exact (along_append _ _).2 ⟨hrun, hcost.others_committed hrun hdone, trivial⟩
    exact hprefix _ List.prefix_rfl
  · intro hrun before fetched after hturns _
    constructor
    · rintro later ⟨rest, rfl⟩
      have hbefore : b.turns p = (before ++ fetched :: later) ++ rest := by simp [hturns]
      rw [hbefore] at hrun
      have heq := foldl_spare_source ((along_append _ _).1 hrun).1
      unfold loop_after spared_after
      rw [heq]
    · have heq := foldl_spare_source hrun
      rw [← run_by_process_source]
      unfold run_by process_sources_by
      dsimp only
      rw [heq]

end Open

/-- A build over two pages; the extraction of the text `?` raises. -/
def two_pages (acl_teams : List String) (text : String) : Build where
  kb_version := "v"
  listing := [({ SourceRef.page "a" with acl_teams }, "A"), (.page "b", text)]
  extract fetched := if fetched.text = "?" then none else some [⟨.summary, none, fetched.text, 1, 1⟩]

/-- The access list of an unchanged page is narrowed, and the next page fails: the build completes, and the page
keeps the wide list, as does its artifact. -/
theorem revocation_lost_to_failing_source :
    (run .plain cached_generation (history .plain cached_generation [two_pages ["eng", "ops"] "B"])
        (two_pages ["eng"] "?")).finalized.isSome = true ∧
      (run .plain cached_generation (history .plain cached_generation [two_pages ["eng", "ops"] "B"])
        (two_pages ["eng"] "?")).registry.artifacts.map (·.acl_teams) = [["eng", "ops"], []] ∧
      ¬ FailuresCostThemselves .plain cached_generation (two_pages ["eng"] "?")
        (history .plain cached_generation [two_pages ["eng", "ops"] "B"]) := by
  refine ⟨by decide +kernel, by decide +kernel, fun hcost => ?_⟩
  have heffects := (hcost [] _ _ rfl (by decide +kernel)).2
  revert heffects
  decide +kernel

end AgenticKb

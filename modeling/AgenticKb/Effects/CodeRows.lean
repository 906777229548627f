import AgenticKb.Effects.Rows
import AgenticKb.Effects.CodeEdges

open AgenticKb.Lib

namespace AgenticKb

/-! The code files of a build up to its whole-tree pass. When an address names the repo and the path of its source,
the other sources cannot reach the rows of the code files, nor what hangs on them. -/

/-- The repo and the path a source has in the whole-tree pass. -/
def NormalizedContent.place (fetched : NormalizedContent) : String × String :=
  (fetched.source.repo.getD "", fetched.source.path.getD "")

def SourceItem.place (row : SourceItem) : String × String := (row.repo.getD "", row.path.getD "")

/-- The row of a code file of a whole tree. -/
def is_code_item (row : SourceItem) : Bool := row.source_type == .github_code && row.path.any (· ≠ "")

/-- The key of a code file of a whole tree, when an address names a place. -/
def CodeKey (place : SourceType × String → String × String) (key : SourceType × String) : Prop :=
  key.1 = .github_code ∧ (place key).2 ≠ ""

/-- The address of a source names its place. -/
def Placed (place : SourceType × String → String × String) (fetched : NormalizedContent) : Prop :=
  fetched.place = place fetched.key

/-- So does that of every row. -/
def RowsPlaced (place : SourceType × String → String × String) (r : Registry) : Prop :=
  ∀ row ∈ r.source_items, row.place = place row.key

section Places

variable {p : Platform} {b : Build} {r : Registry} {place : SourceType × String → String × String}

private theorem any_ne_empty {path : Option String} : path.any (· ≠ "") = true ↔ path.getD "" ≠ "" := by
  cases path <;> simp

theorem Placed.is_code_file_iff {fetched : NormalizedContent} (h : Placed place fetched) :
    is_code_file fetched = true ↔ CodeKey place fetched.key := by
  rw [is_code_file, Bool.and_eq_true, beq_iff_eq, any_ne_empty, CodeKey, ← h]
  exact Iff.rfl

theorem RowsPlaced.is_code_item_iff (h : RowsPlaced place r) {row : SourceItem} (hrow : row ∈ r.source_items) :
    is_code_item row = true ↔ CodeKey place row.key := by
  rw [is_code_item, Bool.and_eq_true, beq_iff_eq, any_ne_empty, CodeKey, ← h row hrow]
  exact Iff.rfl

private theorem rowRule_placed : RowRule p (Placed place) (RowsPlaced place) fun _ => True where
  kept hrows _ h row hrow := h row (hrows ▸ hrow)
  touch _ _ h := by
    refine ⟨fun row hrow => ?_, fun _ _ => trivial⟩
    obtain ⟨row₀, hrow₀, rfl⟩ := List.mem_map.1 hrow
    split
    · exact h row₀ hrow₀
    · exact h row₀ hrow₀
  upsert {r fetched} _ hplaced h := by
    refine ⟨fun row hrow => ?_, trivial⟩
    unfold upsert_source_item at hrow
    cases hfound : source_row r fetched with
    | none =>
      rw [hfound] at hrow
      cases List.mem_append.1 hrow with
      | inl hold => exact h row hold
      | inr hnew =>
        rw [List.mem_singleton.1 hnew]
        exact hplaced
    | some existing =>
      rw [hfound] at hrow
      obtain ⟨row₀, hrow₀, rfl⟩ := List.mem_map.1 hrow
      split
      · rename_i hsame
        have hkey : row₀.key = fetched.key := same_source_iff.1 hsame
        have hplace : (fetched.source.repo.getD "", fetched.source.path.getD "") = place row₀.key := hkey ▸ hplaced
        exact hplace
      · exact h row₀ hrow₀

/-- Builds over placed sources see placed rows … -/
theorem rowsPlaced_run (hwf : WellFormed p r) (hinj : Function.Injective p.gen_random_uuid)
    (h : RowsPlaced place r) (hplaced : ∀ f ∈ b.turns p, Placed place f) :
    RowsPlaced place (run p cached_generation r b).sources.current := by
  have hunits : ∀ unit ∈ (source_loop p b (start_run p r b.kb_version)).code_units, Placed place unit.fetched :=
    fun unit hunit => hplaced _ (unit_of_source_loop hinj (wellFormed_start_run hwf) hunit).1
  exact (rowsHold_run rowRule_placed hwf hinj h (fun f hf _ => hplaced f hf)
    ⟨fun _ => hunits, fun entry hentry _ unit hunit => hunits unit (mem_code_units_of_mem_repos hentry hunit)⟩).current

/-- … and leave placed rows. -/
theorem rowsPlaced_next (hwf : WellFormed p r) (hinj : Function.Injective p.gen_random_uuid)
    (h : RowsPlaced place r) (hplaced : ∀ f ∈ b.turns p, Placed place f) :
    RowsPlaced place (next p cached_generation r b) := by
  have hunits : ∀ unit ∈ (source_loop p b (start_run p r b.kb_version)).code_units, Placed place unit.fetched :=
    fun unit hunit => hplaced _ (unit_of_source_loop hinj (wellFormed_start_run hwf) hunit).1
  refine rows_next rowRule_placed hwf hinj h (fun f hf _ => hplaced f hf)
    ⟨fun _ => hunits, fun entry hentry _ unit hunit => hunits unit (mem_code_units_of_mem_repos hentry hunit)⟩ ?_
  intro r r' ids hstep _ h row hrow
  obtain ⟨row₀, hrow₀, hk⟩ := (hstep.origin hrow).resolve_right id
  rw [show row = _ from hk]
  exact h row₀ hrow₀

end Places

/-- The rows of the code files are as they were up to touches, no artifact was written under one of them, and no
code edge. -/
structure CodeKept (place : SourceType × String → String × String) (r r' : Registry) : Prop where
  rows_to : ∀ row ∈ r.source_items, CodeKey place row.key → ∃ row' ∈ r'.source_items, Touched row row'
  rows_from : ∀ row' ∈ r'.source_items, CodeKey place row'.key → ∃ row ∈ r.source_items, Touched row row'
  artifacts : ∃ added, r'.artifacts = r.artifacts ++ added ∧
    ∀ a ∈ added, KeyedBy (fun key => ¬ CodeKey place key) r' a.source_id
  edges : code_edges r' = code_edges r

/-- None of the sources changed so far is a code file. -/
def ProseChanged (place : SourceType × String → String × String) (r : Registry) (changed : List Uuid) : Prop :=
  ∀ id ∈ changed, KeyedBy (fun key => ¬ CodeKey place key) r id

section Kept

variable {p : Platform} {b : Build} {r r' r'' : Registry} {place : SourceType × String → String × String}

theorem CodeKept.refl (r : Registry) : CodeKept place r r :=
  ⟨fun row hrow _ => ⟨row, hrow, .refl row⟩, fun row hrow _ => ⟨row, hrow, .refl row⟩, ⟨[], by simp, by simp⟩, rfl⟩

theorem CodeKept.touched (h : CodeKept place r r') (htouch : OnlyTouched r' r'') : CodeKept place r r'' := by
  obtain ⟨added, hadded, hhome⟩ := h.artifacts
  constructor
  · intro row hrow hkey
    obtain ⟨row', hrow', hk⟩ := h.rows_to row hrow hkey
    obtain ⟨row'', hrow'', hk'⟩ := htouch.source_items.successor hrow'
    exact ⟨row'', hrow'', hk.trans hk'⟩
  · intro row'' hrow'' hkey
    obtain ⟨row', hrow', hk'⟩ := htouch.origin hrow''
    obtain ⟨row, hrow, hk⟩ := h.rows_from row' hrow' (hk'.2.1 ▸ hkey)
    exact ⟨row, hrow, hk.trans hk'⟩
  · exact ⟨added, htouch.artifacts.trans hadded, fun a ha => (hhome a ha).persist htouch.persist⟩
  · rw [code_edges, htouch.edges]
    exact h.edges

theorem ProseChanged.touched {changed : List Uuid} (h : ProseChanged place r changed) (htouch : OnlyTouched r r') :
    ProseChanged place r' changed := fun id hid => (h id hid).persist htouch.persist

/-- A source that is no code file leaves the code files alone. -/
theorem CodeKept.processed {fetched : NormalizedContent} {id : Uuid} {added : List KnowledgeArtifact}
    (h : CodeKept place r r') (hprocessed : Processed p r' r'' fetched id added)
    (hprose : ¬ CodeKey place fetched.key) : CodeKept place r r'' := by
  obtain ⟨before, hbefore, hhome⟩ := h.artifacts
  obtain ⟨mine, hmine, hid, hsame, -, -⟩ := hprocessed.advanced.row
  have hnotcode : ¬ CodeKey place mine.key := same_source_iff.1 hsame ▸ hprose
  have hothers : ∀ row, CodeKey place row.key → (row ∈ r''.source_items ↔ row ∈ r'.source_items) := by
    intro row hkey
    by_cases hmem : row.source_id = id
    · constructor
      · intro hrow
        exact absurd (hprocessed.wellFormed.source_eq hrow hmine (hmem.trans hid.symm) ▸ hkey) hnotcode
      · intro hrow
        obtain ⟨row', hrow', hid', hkey'⟩ := hprocessed.advanced.persist row hrow
        rw [hprocessed.wellFormed.source_eq hrow' hmine (hid'.trans (hmem.trans hid.symm))] at hkey'
        exact absurd (hkey' ▸ hkey) hnotcode
    · exact hprocessed.advanced.others row hmem
  constructor
  · intro row hrow hkey
    obtain ⟨row', hrow', hk⟩ := h.rows_to row hrow hkey
    exact ⟨row', (hothers row' (hk.2.1 ▸ hkey)).2 hrow', hk⟩
  · intro row' hrow' hkey
    exact h.rows_from row' ((hothers row' hkey).1 hrow') hkey
  · refine ⟨before ++ added, by rw [hprocessed.artifacts, hbefore, List.append_assoc], fun a ha => ?_⟩
    cases List.mem_append.1 ha with
    | inl hold => exact (hhome a hold).persist hprocessed.advanced.persist
    | inr hnew => exact ⟨mine, hmine, hid.trans (hprocessed.extracted a hnew).source_id.symm, hnotcode⟩
  · rw [code_edges, hprocessed.edges]
    exact h.edges

theorem loopRule_codeKept {n : Nat} (hplaced : ∀ f ∈ b.turns p, Placed place f) :
    LoopRule p b n (fun _ _ => True) (fun _ _ => False) fun r' changed =>
      CodeKept place r r' ∧ ProseChanged place r' changed where
  touched htouch h := ⟨h.1.touched htouch, h.2.touched htouch⟩
  processed {s r' fetched id added} _ h _ hmem hprose _ hprocessed _ := by
    have hnotcode : ¬ CodeKey place fetched.key := by
      rw [← (hplaced fetched hmem).is_code_file_iff, hprose]
      simp
    refine ⟨h.1.processed hprocessed hnotcode, fun id' hid' => ?_⟩
    cases List.mem_append.1 hid' with
    | inl hold => exact (h.2 id' hold).persist hprocessed.advanced.persist
    | inr hnew =>
      obtain ⟨row, hrow, hid, hsame, -, -⟩ := hprocessed.advanced.row
      exact ⟨row, hrow, hid.trans (List.mem_singleton.1 hnew).symm, same_source_iff.1 hsame ▸ hnotcode⟩
  repo _ _ _ _ _ hok := hok.elim

/-- A code file is unchanged against the one registry exactly when it is against the other. -/
theorem CodeKept.is_unchanged_eq (h : CodeKept place r r') (hwf : WellFormed p r) (hwf' : WellFormed p r')
    {fetched : NormalizedContent} (hkey : CodeKey place fetched.key) :
    is_unchanged r' fetched = is_unchanged r fetched := by
  unfold is_unchanged
  cases hfound : source_row r fetched with
  | some row =>
    obtain ⟨hrow, hsame⟩ := source_row_eq_some hfound
    rw [same_source_iff] at hsame
    obtain ⟨row', hrow', hk⟩ := h.rows_to row hrow (hsame ▸ hkey)
    rw [hwf'.source_row_eq hrow' (same_source_iff.2 (hk.2.1.trans hsame)), Option.any_some, Option.any_some, hk.2.2.1]
  | none =>
    cases hfound' : source_row r' fetched with
    | none => rfl
    | some row' =>
      obtain ⟨hrow', hsame⟩ := source_row_eq_some hfound'
      rw [same_source_iff] at hsame
      obtain ⟨row, hrow, hk⟩ := h.rows_from row' hrow' (hsame ▸ hkey)
      have hsome := hwf.source_row_eq hrow (same_source_iff.2 (hk.2.1.symm.trans hsame))
      rw [hfound] at hsome
      cases hsome

/-- A listed code file as the whole-tree pass gets it. -/
def code_unit (r : Registry) (fetched : NormalizedContent) : CodeUnit where
  fetched := fetched
  path := fetched.source.path.getD ""
  repo := fetched.source.repo.getD ""
  changed := !is_unchanged r fetched

/-- A code file is put aside, as it compares with the open transaction. -/
theorem process_source_code {s : SourceLoop} {fetched : NormalizedContent} (hcode : is_code_file fetched = true) :
    process_source p cached_generation b s fetched =
      { s with
        any_code_changed := s.any_code_changed || (code_unit s.current fetched).changed
        code_units := s.code_units ++ [code_unit s.current fetched] } := by
  rw [process_source, if_pos hcode]
  rfl

/-- No other source is. -/
theorem process_source_prose {s : SourceLoop} {fetched : NormalizedContent} (hprose : is_code_file fetched = false) :
    (process_source p cached_generation b s fetched).code_units = s.code_units ∧
      (process_source p cached_generation b s fetched).any_code_changed = s.any_code_changed := by
  rw [process_source, hprose, if_neg Bool.false_ne_true]
  split
  · exact ⟨rfl, rfl⟩
  · split
    · exact ⟨rfl, rfl⟩
    · unfold fail_source
      dsimp only
      split <;> exact ⟨rfl, rfl⟩

/-- The sources taken in so far: the code files are put aside and otherwise as they were. -/
structure CodeCollected (place : SourceType × String → String × String) (p : Platform) (b : Build) (r : Registry)
    (done : List NormalizedContent) (s : SourceLoop) : Prop where
  turning : Turning p b r.build_seq (fun r' changed => CodeKept place r r' ∧ ProseChanged place r' changed) s
  code_units : s.code_units = (done.filter is_code_file).map (code_unit r)
  any_code_changed : s.any_code_changed = s.code_units.any (·.changed)

theorem codeCollected_source_loop (hwf : WellFormed p r) (hinj : Function.Injective p.gen_random_uuid)
    (hplaced : ∀ f ∈ b.turns p, Placed place f) :
    CodeCollected place p b r (b.turns p) (source_loop p b r) := by
  have hrun : Along (process_source p cached_generation b) (fun _ _ => True) (.start r) (b.turns p) :=
    .of_forall fun _ _ _ => trivial
  have hstart : CodeKept place r r ∧ ProseChanged place r [] := ⟨.refl r, by simp [ProseChanged]⟩
  refine hrun.prefix_invariant (I := CodeCollected place p b r) ?_
    ⟨⟨.start hwf, by simp [UnitsListed, SourceLoop.start], rfl, hstart, hstart⟩, rfl, rfl⟩
  intro done s fetched hmem hs _
  have hturn := process_source_turn (b := b) hs.turning.loop.current hinj fetched
  have hturning := turning_turn (loopRule_codeKept hplaced) hs.turning hmem trivial hturn
  cases hcode : is_code_file fetched with
  | true =>
    have hkey : CodeKey place fetched.key := (hplaced fetched hmem).is_code_file_iff.1 hcode
    have hsame : code_unit s.current fetched = code_unit r fetched := by
      rw [code_unit, hs.turning.current.1.is_unchanged_eq hwf hs.turning.loop.current hkey, code_unit]
    have hstep := process_source_code (p := p) (b := b) (s := s) hcode
    refine ⟨hturning, ?_, ?_⟩
    · rw [hstep, hsame, List.filter_append, List.map_append, ← hs.code_units]
      simp [hcode]
    · rw [hstep, hs.any_code_changed]
      simp
  | false =>
    obtain ⟨hunits, hchanged⟩ := process_source_prose (p := p) (b := b) (s := s) hcode
    refine ⟨hturning, ?_, ?_⟩
    · rw [hunits, hs.code_units]
      simp [hcode]
    · rw [hunits, hchanged, hs.any_code_changed]

end Kept

end AgenticKb

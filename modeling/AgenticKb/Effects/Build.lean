import AgenticKb.Effects.SourceLoop
import AgenticKb.Effects.Alias

open AgenticKb.Lib

namespace AgenticKb

/-- What the source loop takes in: the whole listing, unless the build is interrupted in it. -/
def Build.turns (p : Platform) (b : Build) : List NormalizedContent :=
  match b.fault with
  | some (.after_sources processed) => (b.listing.map p.fetch).take processed
  | _ => b.listing.map p.fetch

/-- Every fetched content is stamped with the digest of its text. -/
theorem content_hash_of_mem_turns {p : Platform} {b : Build} {fetched : NormalizedContent}
    (h : fetched ∈ b.turns p) : fetched.content_hash = p.content_hash fetched.text := by
  have hlisted : fetched ∈ b.listing.map p.fetch := by
    unfold Build.turns at h
    split at h
    · exact List.mem_of_mem_take h
    · exact h
  obtain ⟨entry, -, rfl⟩ := List.mem_map.1 hlisted
  rfl

def SourceLoop.start (r : Registry) : SourceLoop := { committed := r, current := r }

/-- The source loop when it has taken everything in. -/
def source_loop (p : Platform) (b : Build) (r : Registry) : SourceLoop :=
  (b.turns p).foldl (process_source p cached_generation b) (.start r)

/-- The repos whose code graph the build rewrites. -/
def Build.repos (b : Build) (s : SourceLoop) : List (String × List CodeUnit) :=
  match b.fault with
  | some (.after_sources _) | some .in_graphify => []
  | _ => if s.any_code_changed then units_by_repo s.code_units else []

/-- What becomes of the loop after its last source. -/
inductive SourcesEnd (p : Platform) (b : Build) (s : SourceLoop) : Except SourceLoop SourceLoop → Prop where
  | interrupted : SourcesEnd p b s (.error s)
  | kept (hcode : s.any_code_changed = false) : SourcesEnd p b s (.ok (s.code_units.foldl touch_unit s))
  | rewritten (s' : SourceLoop) (hcode : s.any_code_changed = true)
      (hrepos : b.repos s = units_by_repo s.code_units)
      (hrun : (b.repos s).foldlM (graphify_one_repo p b) s = some s') : SourcesEnd p b s (.ok s'.commit)

/-- The tail of `process_sources`, when the source loop was not interrupted. -/
private theorem rewritten_or_interrupted {p : Platform} {b : Build} {s : SourceLoop}
    (hstop : b.fault = none ∨ b.fault = some .in_finalize) (hcode : s.any_code_changed = true) :
    SourcesEnd p b s (match graphify_code_tree p b s with
      | some s => .ok s.commit
      | none => .error s) := by
  have hrepos : b.repos s = units_by_repo s.code_units := by
    rcases hstop with hfault | hfault <;> simp [Build.repos, hfault, hcode]
  split
  · rename_i s' hrun
    exact .rewritten s' hcode hrepos (hrepos ▸ hrun)
  · exact .interrupted

theorem process_sources_end (p : Platform) (b : Build) (r : Registry) :
    SourcesEnd p b (source_loop p b r) (process_sources p cached_generation b r) := by
  cases hfault : b.fault with
  | none =>
    have hloop : source_loop p b r = (b.listing.map p.fetch).foldl (process_source p cached_generation b)
        { committed := r, current := r } := by simp only [source_loop, Build.turns, hfault, SourceLoop.start]
    simp only [process_sources, hfault, ← hloop]
    split
    · rename_i hcode
      exact rewritten_or_interrupted (.inl hfault) hcode
    · rename_i hcode
      exact .kept (by simpa using hcode)
  | some fault =>
    cases fault with
    | after_sources processed =>
      have hloop : source_loop p b r = ((b.listing.map p.fetch).take processed).foldl
          (process_source p cached_generation b) { committed := r, current := r } := by
        simp only [source_loop, Build.turns, hfault, SourceLoop.start]
      simp only [process_sources, hfault, ← hloop]
      exact .interrupted
    | in_graphify =>
      have hloop : source_loop p b r = (b.listing.map p.fetch).foldl (process_source p cached_generation b)
          { committed := r, current := r } := by simp only [source_loop, Build.turns, hfault, SourceLoop.start]
      simp only [process_sources, hfault, ← hloop]
      split
      · exact .interrupted
      · rename_i hcode
        exact .kept (by simpa using hcode)
    | in_finalize =>
      have hloop : source_loop p b r = (b.listing.map p.fetch).foldl (process_source p cached_generation b)
          { committed := r, current := r } := by simp only [source_loop, Build.turns, hfault, SourceLoop.start]
      simp only [process_sources, hfault, ← hloop]
      split
      · rename_i hcode
        exact rewritten_or_interrupted (.inr hfault) hcode
      · rename_i hcode
        exact .kept (by simpa using hcode)

/-- Every key names a live artifact. -/
def KeysLive (s : SourceLoop) : Prop := ∀ entry ∈ s.code_key_map, LiveArtifact s.current entry.2

/-- No source is listed with two contents. -/
def OneContent (p : Platform) (b : Build) : Prop :=
  ∀ f ∈ b.turns p, ∀ f' ∈ b.turns p, f.key = f'.key → f.content_hash = f'.content_hash

instance (p : Platform) (b : Build) : Decidable (OneContent p b) :=
  inferInstanceAs (Decidable (∀ f ∈ b.turns p, ∀ f' ∈ b.turns p, _ → _))

theorem OneContent.eq {p : Platform} {b : Build} (h : OneContent p b) {f f' : NormalizedContent}
    (hf : f ∈ b.turns p) (hf' : f' ∈ b.turns p) {row row' : SourceItem} (hsame : same_source f row = true)
    (hsame' : same_source f' row' = true) (hkey : row.key = row'.key) : f.content_hash = f'.content_hash := by
  rw [same_source_iff] at hsame hsame'
  exact h f hf f' hf' (hsame.symm.trans (hkey.trans hsame'))

/-- The row holds the content of one of the listed sources. -/
def FromTurns (p : Platform) (b : Build) (row : SourceItem) : Prop :=
  ∃ fetched ∈ b.turns p, same_source fetched row = true ∧ row.content_hash = fetched.content_hash

/-- The files put aside were listed, and the rows of the unchanged ones hold listed contents. -/
def UnitsListed (p : Platform) (b : Build) (r : Registry) (units : List CodeUnit) : Prop :=
  ∀ unit ∈ units, unit.fetched ∈ b.turns p ∧ (unit.changed = false →
    ∀ row ∈ r.source_items, same_source unit.fetched row = true → FromTurns p b row)

section Listed

variable {p : Platform} {b : Build} {r r' : Registry}

/-- A touched row still holds a listed content. -/
theorem FromTurns.touched {row row' : SourceItem} (h : FromTurns p b row) (htouch : Touched row row') :
    FromTurns p b row' := by
  obtain ⟨fetched, hmem, hsame, hhash⟩ := h
  rw [same_source_iff] at hsame
  exact ⟨fetched, hmem, same_source_iff.2 (htouch.2.1.trans hsame), htouch.2.2.1.trans hhash⟩

/-- Two listed contents of one source are the same. -/
theorem FromTurns.eq (hone : OneContent p b) {row row' : SourceItem} (h : FromTurns p b row)
    (h' : FromTurns p b row') (hkey : row.key = row'.key) : row.content_hash = row'.content_hash := by
  obtain ⟨f, hf, hsame, hhash⟩ := h
  obtain ⟨f', hf', hsame', hhash'⟩ := h'
  rw [hhash, hhash', hone.eq hf hf' hsame hsame' hkey]

/-- What a listed row keeps: its identity, its content, and its life. -/
structure ListedKept (p : Platform) (b : Build) (row row' : SourceItem) : Prop where
  source_id : row'.source_id = row.source_id
  key : row'.key = row.key
  listed : FromTurns p b row'
  content_hash : row'.content_hash = row.content_hash
  live : row.is_deleted = false → row'.is_deleted = false

/-- No listed row is lost. -/
def KeepsListed (p : Platform) (b : Build) (r r' : Registry) : Prop :=
  ∀ row ∈ r.source_items, FromTurns p b row → ∃ row' ∈ r'.source_items, ListedKept p b row row'

private theorem listedKept_touched {row row' : SourceItem} (h : FromTurns p b row) (hk : Touched row row') :
    ListedKept p b row row' := ⟨hk.1, hk.2.1, h.touched hk, hk.2.2.1, fun hlive => hk.2.2.2.trans hlive⟩

theorem OnlyTouched.keepsListed (h : OnlyTouched r r') : KeepsListed p b r r' := by
  intro row hrow hlisted
  obtain ⟨row', hrow', hk⟩ := h.source_items.successor hrow
  exact ⟨row', hrow', listedKept_touched hlisted hk⟩

/-- Nor by taking touches back. -/
theorem OnlyTouched.keepsListed_back (h : OnlyTouched r r') : KeepsListed p b r' r := by
  intro row' hrow' hlisted
  obtain ⟨row, hrow, hk⟩ := h.origin hrow'
  exact ⟨row, hrow, listedKept_touched hlisted hk.symm⟩

theorem Processed.keepsListed {fetched : NormalizedContent} {id : Uuid} {added : List KnowledgeArtifact}
    (h : Processed p r r' fetched id added) (hone : OneContent p b) (hmem : fetched ∈ b.turns p) :
    KeepsListed p b r r' := by
  intro row hrow hlisted
  obtain ⟨row', hrow', hid, hkey⟩ := h.advanced.persist row hrow
  obtain ⟨row₁, hrow₁, hid₁, hsame₁, hhash₁, hlive₁⟩ := h.advanced.row
  by_cases hrowid : row.source_id = id
  · obtain rfl := h.wellFormed.source_eq hrow' hrow₁ (hid.trans (hrowid.trans hid₁.symm))
    have hlisted₁ : FromTurns p b row' := ⟨fetched, hmem, hsame₁, hhash₁⟩
    exact ⟨row', hrow', hid, hkey, hlisted₁, hlisted₁.eq hone hlisted hkey, fun _ => hlive₁⟩
  · exact ⟨row, (h.advanced.others row hrowid).2 hrow, rfl, rfl, hlisted, rfl, fun hlive => hlive⟩

theorem UnitsUpserted.keepsListed {units : List CodeUnit} {rows : Registry × Dict String Uuid × List Uuid}
    (h : UnitsUpserted p r units rows) (hwf : WellFormed p r) (hone : OneContent p b)
    (hlisted : UnitsListed p b r units) : KeepsListed p b r rows.1 := by
  intro row hrow hfrom
  obtain ⟨row', hrow', hid, hkey⟩ := h.persist row hrow
  rcases h.origin row' hrow' with ⟨row₀, hrow₀, hk⟩ | ⟨unit, hunit, -, hsame, hhash, hlive⟩
  · obtain rfl := hwf.source_eq hrow₀ hrow (hk.1.symm.trans hid)
    exact ⟨row', hrow', listedKept_touched hfrom hk⟩
  · have hfrom' : FromTurns p b row' := ⟨unit.fetched, (hlisted unit hunit).1, hsame, hhash⟩
    exact ⟨row', hrow', hid, hkey, hfrom', hfrom'.eq hone hfrom hkey, fun _ => hlive⟩

/-- The row of each file of a rewritten repo holds a listed content. -/
theorem UnitsUpserted.fromTurns {units : List CodeUnit} {rows : Registry × Dict String Uuid × List Uuid}
    (h : UnitsUpserted p r units rows) (hlisted : UnitsListed p b r units) {unit : CodeUnit}
    (hunit : unit ∈ units) {row : SourceItem} (hrow : row ∈ rows.1.source_items)
    (hsame : same_source unit.fetched row = true) : FromTurns p b row := by
  have hadvanced : AdvancedTo units row → FromTurns p b row := by
    rintro ⟨u, hu, -, hsame', hhash, -⟩
    exact ⟨u.fetched, (hlisted u hu).1, hsame', hhash⟩
  rcases h.origin row hrow with ⟨row₀, hrow₀, hk⟩ | hadv
  · cases hchanged : unit.changed with
    | true => exact hadvanced (h.advanced unit hunit hchanged row hrow hsame)
    | false =>
      rw [same_source_iff] at hsame
      have hfrom : FromTurns p b row₀ :=
        (hlisted unit hunit).2 hchanged row₀ hrow₀ (same_source_iff.2 (hk.2.1.symm.trans hsame))
      exact hfrom.touched hk
  · exact hadvanced hadv

/-- The row of an advanced file is among those of the pass. -/
theorem UnitsUpserted.seen_of_advanced {units : List CodeUnit}
    {rows : Registry × Dict String Uuid × List Uuid} (h : UnitsUpserted p r units rows) {row : SourceItem}
    (hrow : row ∈ rows.1.source_items) (hadv : AdvancedTo units row) : row.source_id ∈ rows.2.2 := by
  obtain ⟨unit, hunit, -, hsame, -⟩ := hadv
  obtain ⟨row', hrow', hsame', hseen⟩ := h.seen unit hunit
  rw [same_source_iff] at hsame hsame'
  rwa [h.wellFormed.source_eq_of_key hrow hrow' (hsame.trans hsame'.symm)]

end Listed

/-- What a property of the registry and of the sources changed so far has to survive in the source
loop of build `n`, when every source meets `turn_ok` and every repo `repo_ok`. -/
structure LoopRule (p : Platform) (b : Build) (n : Nat) (turn_ok : SourceLoop → NormalizedContent → Prop)
    (repo_ok : SourceLoop → String × List CodeUnit → Prop) (R : Registry → List Uuid → Prop) : Prop where
  touched : ∀ {r r' changed}, OnlyTouched r r' → R r changed → R r' changed
  processed : ∀ {s r' fetched id added}, LoopWellFormed p n s → R s.current s.changed → turn_ok s fetched →
    fetched ∈ b.turns p → is_code_file fetched = false → is_unchanged s.current fetched = false → Processed p s.current r' fetched id added →
    (fetched.source.source_type = .git_metadata ∨
      cached_generation.lookup (upsert_source_item p s.current fetched).1 (generation_key p b fetched) =
        none ∧ b.extract fetched ≠ some [] → added ≠ []) →
    R r' (s.changed ++ [id])
  repo : ∀ {s s' entry result rows added links}, WellFormed p s.current → s.current.build_seq = n →
    KeysLive s → UnitsListed p b s.current entry.2 → R s.current s.changed → repo_ok s entry →
    b.graphify_tree (entry.2.map fun unit => (unit.path, unit.fetched.text)) = some result →
    RepoWritten p b s s' entry.1 entry.2 result rows added links → R s'.current (s.changed ++ rows.2.2)

theorem loopRule_true {p : Platform} {b : Build} {n : Nat} {turn_ok : SourceLoop → NormalizedContent → Prop}
    {repo_ok : SourceLoop → String × List CodeUnit → Prop} :
    LoopRule p b n turn_ok repo_ok fun _ _ => True :=
  ⟨fun _ _ => trivial, fun _ _ _ _ _ _ _ _ => trivial, fun _ _ _ _ _ _ _ _ => trivial⟩

/-- The loop is over: what it has committed and what it sees meet `R`. -/
structure SourcesGood (p : Platform) (n : Nat) (R : Registry → List Uuid → Prop) (s : SourceLoop) : Prop where
  committed_wellFormed : WellFormed p s.committed
  current_wellFormed : WellFormed p s.current
  committed_seq : s.committed.build_seq = n
  current_seq : s.current.build_seq = n
  committed : R s.committed s.changed
  current : R s.current s.changed

section Loop

variable {p : Platform} {b : Build} {n : Nat} {turn_ok : SourceLoop → NormalizedContent → Prop}
  {repo_ok : SourceLoop → String × List CodeUnit → Prop} {R : Registry → List Uuid → Prop}

/-- Between two sources. -/
structure Turning (p : Platform) (b : Build) (n : Nat) (R : Registry → List Uuid → Prop) (s : SourceLoop) :
    Prop where
  loop : LoopWellFormed p n s
  listed : UnitsListed p b s.current s.code_units
  keys : s.code_key_map = []
  committed : R s.committed s.changed
  current : R s.current s.changed

private theorem UnitsListed.touched {r r' : Registry} {units : List CodeUnit} (h : UnitsListed p b r units)
    (htouch : OnlyTouched r r') : UnitsListed p b r' units := by
  refine fun unit hunit => ⟨(h unit hunit).1, fun hunchanged row hrow hsame => ?_⟩
  obtain ⟨row₀, hrow₀, hk⟩ := htouch.origin hrow
  rw [same_source_iff] at hsame
  exact ((h unit hunit).2 hunchanged row₀ hrow₀ (same_source_iff.2 (hk.2.1.symm.trans hsame))).touched hk

private theorem unitsListed_turn {s s' : SourceLoop} {fetched : NormalizedContent}
    (hloop : LoopWellFormed p n s) (h : UnitsListed p b s.current s.code_units) (hmem : fetched ∈ b.turns p)
    (hturn : Turn p b s fetched s') : UnitsListed p b s'.current s'.code_units := by
  cases hturn with
  | collected unit hcode hunit hrepo hchanged =>
    intro u hu
    rcases List.mem_append.1 hu with hu | hu
    · exact h u hu
    · rw [List.mem_singleton.1 hu, hunit]
      refine ⟨hmem, fun hunchanged row hrow hsame => ⟨fetched, hmem, hsame, ?_⟩⟩
      rw [hchanged, Bool.not_eq_false'] at hunchanged
      obtain ⟨found, hfound, hhash⟩ := is_unchanged_eq_true hunchanged
      rw [hloop.current.source_row_eq hrow hsame] at hfound
      exact Option.some.inj hfound ▸ hhash
  | unchanged r row hrow hsame hhash htouch => exact h.touched htouch
  | processed r id added hprose hchanged hprocessed hadded =>
    refine fun unit hunit => ⟨(h unit hunit).1, fun hunchanged row hrow hsame => ?_⟩
    by_cases hid : row.source_id = id
    · obtain ⟨row', hrow', hid', hsame', hhash', -⟩ := hprocessed.advanced.row
      rw [hprocessed.wellFormed.source_eq hrow hrow' (hid.trans hid'.symm)]
      exact ⟨fetched, hmem, hsame', hhash'⟩
    · exact (h unit hunit).2 hunchanged row ((hprocessed.advanced.others row hid).1 hrow) hsame
  | failed committed current ids hcommitted hcurrent =>
    -- the rolled back rows differ from the current ones by touches only
    refine fun unit hunit => ⟨(h unit hunit).1, fun hunchanged row hrow hsame => ?_⟩
    obtain ⟨row₀, hrow₀, hk⟩ := (hcommitted.trans hcurrent).origin hrow
    obtain ⟨row₁, hrow₁, hk₁⟩ := hloop.touched.source_items.successor hrow₀
    rw [same_source_iff] at hsame
    obtain ⟨f, hf, hsame', hhash'⟩ := (h unit hunit).2 hunchanged row₁ hrow₁
      (same_source_iff.2 (hk₁.2.1.trans (hk.2.1.symm.trans hsame)))
    rw [same_source_iff] at hsame'
    exact ⟨f, hf, same_source_iff.2 ((hk.2.1.trans hk₁.2.1.symm).trans hsame'),
      (hk.2.2.1.trans hk₁.2.2.1.symm).trans hhash'⟩

theorem turning_turn (rule : LoopRule p b n turn_ok repo_ok R) {s s' : SourceLoop}
    {fetched : NormalizedContent} (h : Turning p b n R s) (hmem : fetched ∈ b.turns p)
    (hok : turn_ok s fetched) (hturn : Turn p b s fetched s') : Turning p b n R s' := by
  refine ⟨h.loop.turn hturn, unitsListed_turn h.loop h.listed hmem hturn, ?_, ?_, ?_⟩
  · cases hturn <;> exact h.keys
  · cases hturn with
    | collected | unchanged => exact h.committed
    | processed r id added hprose hchanged hprocessed hadded =>
      exact rule.processed h.loop h.current hok hmem hprose hchanged hprocessed hadded
    | failed committed current ids hcommitted hcurrent => exact rule.touched hcommitted h.committed
  · cases hturn with
    | collected => exact h.current
    | unchanged r row hrow hsame hhash htouch => exact rule.touched htouch h.current
    | processed r id added hprose hchanged hprocessed hadded =>
      exact rule.processed h.loop h.current hok hmem hprose hchanged hprocessed hadded
    | failed committed current ids hcommitted hcurrent =>
      exact rule.touched hcurrent (rule.touched hcommitted h.committed)

theorem turning_source_loop (rule : LoopRule p b n turn_ok repo_ok R) {r : Registry}
    (hwf : WellFormed p r) (hinj : Function.Injective p.gen_random_uuid) (hseq : r.build_seq = n)
    (hr : R r []) (hturns : Along (process_source p cached_generation b) turn_ok (.start r) (b.turns p)) :
    Turning p b n R (source_loop p b r) := by
  refine hturns.invariant (I := Turning p b n R) ?_ ⟨hseq ▸ .start hwf, ?_, rfl, hr, hr⟩
  · exact fun s fetched hmem hs hok =>
      turning_turn rule hs hmem hok (process_source_turn hs.loop.current hinj fetched)
  · simp [UnitsListed, SourceLoop.start]

/-- Touching the files of an unchanged tree. -/
theorem touch_units_spec {s : SourceLoop} (hwf : WellFormed p s.current) (units : List CodeUnit) :
    ∃ r ids, units.foldl touch_unit s = { s with current := r, seen := s.seen ++ ids } ∧
      OnlyTouched s.current r ∧
      ∀ unit ∈ units, ∀ row ∈ s.current.source_items, same_source unit.fetched row = true →
        row.source_id ∈ ids := by
  induction units using List.reverseRecOn with
  | nil => exact ⟨s.current, [], by simp, .refl _, by simp⟩
  | append_singleton units unit ih =>
    obtain ⟨r, ids, heq, htouch, hseen⟩ := ih
    have hstep := onlyTouched_touch_last_seen r unit.fetched
    refine ⟨_, ids ++ (touch_last_seen r unit.fetched).2.toList, ?_, htouch.trans hstep, ?_⟩
    · rw [List.foldl_append, heq]
      simp only [List.foldl_cons, List.foldl_nil, touch_unit, List.append_assoc]
    · intro u hu row hrow hsame
      rcases List.mem_append.1 hu with hu | hu
      · exact List.mem_append_left _ (hseen u hu row hrow hsame)
      · rw [List.mem_singleton.1 hu] at hsame
        obtain ⟨row', hrow', hid, hkey, -⟩ := htouch.source_items.successor hrow
        rw [same_source_iff] at hsame
        have hfound := (htouch.wellFormed hwf).source_row_eq hrow' (same_source_iff.2 (hkey.trans hsame))
        refine List.mem_append_right _ ?_
        simp [touch_last_seen, hfound, hid]

/-- In the middle of the whole-tree pass. -/
structure Rewriting (p : Platform) (b : Build) (n : Nat) (R : Registry → List Uuid → Prop)
    (units : List CodeUnit) (s : SourceLoop) : Prop where
  wellFormed : WellFormed p s.current
  seq : s.current.build_seq = n
  keys : KeysLive s
  rows : RowsExist s.current units
  listed : UnitsListed p b s.current units
  current : R s.current s.changed

/-- A repo pass leaves the rows of its own files with listed contents, and touches no others. -/
private theorem UnitsListed.upserted {r : Registry} {units repo_units : List CodeUnit}
    {rows : Registry × Dict String Uuid × List Uuid} (h : UnitsListed p b r units)
    (hsub : ∀ unit ∈ repo_units, unit ∈ units) (hups : UnitsUpserted p r repo_units rows) :
    UnitsListed p b rows.1 units := by
  refine fun unit hunit => ⟨(h unit hunit).1, fun hunchanged row hrow hsame => ?_⟩
  rcases hups.origin row hrow with ⟨row₀, hrow₀, hk⟩ | ⟨u, hu, -, hsame', hhash, -⟩
  · rw [same_source_iff] at hsame
    exact ((h unit hunit).2 hunchanged row₀ hrow₀ (same_source_iff.2 (hk.2.1.symm.trans hsame))).touched hk
  · exact ⟨u.fetched, (h u (hsub u hu)).1, hsame', hhash⟩

theorem rewriting_repo (rule : LoopRule p b n turn_ok repo_ok R)
    (hinj : Function.Injective p.gen_random_uuid) {units : List CodeUnit} {s s' : SourceLoop}
    {entry : String × List CodeUnit} (h : Rewriting p b n R units s) (hsub : ∀ unit ∈ entry.2, unit ∈ units)
    (hok : repo_ok s entry) (hstep : graphify_one_repo p b s entry = some s') : Rewriting p b n R units s' := by
  rcases graphify_one_repo_spec h.wellFormed hinj (fun unit hu => h.rows unit (hsub unit hu)) hstep with
    ⟨-, rfl⟩ | ⟨result, rows, added, links, hresult, hw⟩
  · exact ⟨h.wellFormed, h.seq, h.keys, h.rows, h.listed, h.current⟩
  · refine ⟨hw.wellFormed, hw.build_seq.trans h.seq, ?_, ?_, ?_, ?_⟩
    · intro e he
      exact (hw.keys e he).elim (fun hold => (h.keys e hold).appended hw.artifacts) id
    · intro unit hunit hunchanged
      obtain ⟨row, hrow, hsame⟩ := h.rows unit hunit hunchanged
      obtain ⟨row', hrow', -, hkey⟩ := hw.upserted.persist row hrow
      rw [same_source_iff] at hsame
      exact ⟨row', hw.source_items ▸ hrow', same_source_iff.2 (hkey.trans hsame)⟩
    · intro unit hunit
      rw [hw.source_items]
      exact h.listed.upserted hsub hw.upserted unit hunit
    · have hchanged : s'.changed = s.changed ++ rows.2.2 := congrArg SourceLoop.changed hw.gathered
      rw [hchanged]
      exact rule.repo h.wellFormed h.seq h.keys (fun unit hu => h.listed unit (hsub unit hu)) h.current hok
        hresult hw

theorem mem_units_by_repo {units : List CodeUnit} {entry : String × List CodeUnit}
    (h : entry ∈ units_by_repo units) : ∀ unit ∈ entry.2, unit ∈ units ∧ unit.repo = entry.1 :=
  (Dict.group_sound (fun unit : CodeUnit => unit.repo) (mem_sorted.1 h)).2

/-- Every file put aside is in the group of its repo. -/
theorem exists_units_by_repo {units : List CodeUnit} {unit : CodeUnit} (h : unit ∈ units) :
    ∃ entry ∈ units_by_repo units, unit ∈ entry.2 := by
  obtain ⟨group, hgroup, hmem⟩ := Dict.mem_group_of_mem (fun unit : CodeUnit => unit.repo) (d := []) h
  exact ⟨_, mem_sorted.2 (Dict.mem_of_get? hgroup), hmem⟩

/-- A repo has one group. -/
theorem eq_of_mem_units_by_repo {units : List CodeUnit} {entry entry' : String × List CodeUnit}
    (h : entry ∈ units_by_repo units) (h' : entry' ∈ units_by_repo units) (hrepo : entry.1 = entry'.1) :
    entry = entry' :=
  eq_of_key_eq (Dict.nodup_group (fun unit : CodeUnit => unit.repo) units) (mem_sorted.1 h) (mem_sorted.1 h') hrepo

/-- The files put aside were listed as code files, under their repo. -/
theorem unit_of_source_loop (hinj : Function.Injective p.gen_random_uuid) {r : Registry} (hwf : WellFormed p r)
    {unit : CodeUnit} (h : unit ∈ (source_loop p b r).code_units) :
    unit.fetched ∈ b.turns p ∧ is_code_file unit.fetched = true ∧
      unit.path = unit.fetched.source.path.getD "" ∧ unit.repo = unit.fetched.source.repo.getD "" := by
  have hinv : LoopWellFormed p r.build_seq (source_loop p b r) ∧ ∀ unit ∈ (source_loop p b r).code_units,
      unit.fetched ∈ b.turns p ∧ is_code_file unit.fetched = true ∧
        unit.path = unit.fetched.source.path.getD "" ∧ unit.repo = unit.fetched.source.repo.getD "" := by
    refine foldl_invariant (I := fun s : SourceLoop => LoopWellFormed p r.build_seq s ∧ ∀ unit ∈ s.code_units,
      unit.fetched ∈ b.turns p ∧ is_code_file unit.fetched = true ∧
        unit.path = unit.fetched.source.path.getD "" ∧ unit.repo = unit.fetched.source.repo.getD "") ?_
      ⟨.start hwf, by simp [SourceLoop.start]⟩
    rintro s fetched hmem ⟨hloop, hunits⟩
    have hturn := process_source_turn (b := b) hloop.current hinj fetched
    refine ⟨hloop.turn hturn, ?_⟩
    generalize process_source p cached_generation b s fetched = s' at hturn
    cases hturn with
    | collected unit hcode hunit hrepo hchanged =>
      intro u hu
      cases List.mem_append.1 hu with
      | inl hold => exact hunits u hold
      | inr hnew =>
        rw [List.mem_singleton.1 hnew, hunit]
        exact ⟨hmem, hcode, hrepo⟩
    | unchanged => exact hunits
    | processed => exact hunits
    | failed => exact hunits
  exact hinv.2 unit h

/-- The files of a rewritten repo were put aside. -/
theorem mem_code_units_of_mem_repos {s : SourceLoop} {entry : String × List CodeUnit} (h : entry ∈ b.repos s)
    {unit : CodeUnit} (hunit : unit ∈ entry.2) : unit ∈ s.code_units := by
  unfold Build.repos at h
  split at h
  · simp at h
  · simp at h
  · split at h
    · exact (mem_units_by_repo h unit hunit).1
    · simp at h

/-- What the loop takes in was listed. -/
theorem mem_listing_of_mem_turns {fetched : NormalizedContent} (h : fetched ∈ b.turns p) :
    fetched ∈ b.listing.map p.fetch := by
  unfold Build.turns at h
  split at h
  · exact List.mem_of_mem_take h
  · exact h

/-- A loop that is not interrupted takes the whole listing in. -/
theorem turns_of_process_sources {r : Registry} {s : SourceLoop}
    (h : process_sources p cached_generation b r = .ok s) :
    b.turns p = b.listing.map p.fetch := by
  cases hfault : b.fault with
  | none => simp only [Build.turns, hfault]
  | some fault =>
    cases fault with
    | after_sources processed => simp [process_sources, hfault] at h
    | in_graphify | in_finalize => simp only [Build.turns, hfault]

/-- The rule of the source loop: `R` holds wherever the loop may end. -/
theorem process_sources_rule (rule : LoopRule p b n turn_ok repo_ok R) {r : Registry}
    (hwf : WellFormed p r) (hinj : Function.Injective p.gen_random_uuid) (hseq : r.build_seq = n)
    (hr : R r []) (hturns : Along (process_source p cached_generation b) turn_ok (.start r) (b.turns p))
    (hrepos : AlongM (graphify_one_repo p b) repo_ok (source_loop p b r) (b.repos (source_loop p b r)))
    {s : SourceLoop} (h : process_sources p cached_generation b r = .error s ∨
      process_sources p cached_generation b r = .ok s) : SourcesGood p n R s := by
  have hloop := turning_source_loop rule hwf hinj hseq hr hturns
  have hend := process_sources_end p b r
  have hgood : SourcesGood p n R (source_loop p b r) :=
    ⟨hloop.loop.committed, hloop.loop.current, hloop.loop.build_seq, hloop.loop.current_build_seq,
      hloop.committed, hloop.current⟩
  generalize process_sources p cached_generation b r = ended at hend h
  cases hend with
  | interrupted =>
    rcases h with h | h
    · exact Except.error.inj h ▸ hgood
    · simp at h
  | kept hcode =>
    rcases h with h | h
    · simp at h
    · obtain ⟨r', ids, heq, htouch, -⟩ := touch_units_spec
        hgood.current_wellFormed (source_loop p b r).code_units
      rw [← Except.ok.inj h, heq]
      exact ⟨hgood.committed_wellFormed, htouch.wellFormed hgood.current_wellFormed, hgood.committed_seq,
        htouch.build_seq.trans hgood.current_seq, hgood.committed, rule.touched htouch hgood.current⟩
  | rewritten s' hcode hunits hrun =>
    rcases h with h | h
    · simp at h
    · have hrewriting : Rewriting p b n R (source_loop p b r).code_units s' := by
        refine AlongM.invariant (I := Rewriting p b n R (source_loop p b r).code_units) ?_ ?_ hrepos hrun
        · intro s entry s' hentry hs hok hstep
          rw [hunits] at hentry
          exact rewriting_repo rule hinj hs (fun unit hu => (mem_units_by_repo hentry unit hu).1) hok hstep
        · exact ⟨hgood.current_wellFormed, hgood.current_seq, by simp [KeysLive, hloop.keys],
            hloop.loop.current_rows, hloop.listed, hgood.current⟩
      have hcommit := sameCore_commit s'.current
      have hR := rule.touched (.of_sameCore hcommit) hrewriting.current
      have hwf' := hrewriting.wellFormed.of_sameCore hcommit
      rw [← Except.ok.inj h]
      exact ⟨hwf', hwf', hrewriting.seq, hrewriting.seq, hR, hR⟩

end Loop

section Finalize

variable {p : Platform} {b : Build} {r : Registry} {seen changed : List Uuid} {started_at : Timestamp}
  {passes : Finalized}

/-- The passes of a finalised build, each on the registry the one before it left. -/
structure Finalizes (p : Platform) (b : Build) (r : Registry) (seen changed : List Uuid)
    (started_at : Timestamp) (passes : Finalized) : Prop where
  linked : run_linker p r b.kb_version r.build_seq b.similarity = some passes.linked
  generated : passes.generated = run_candidate_generator p passes.linked b.kb_version b.similarity
  judged : judge_links p b r.build_seq passes.generated = some passes.judged
  invalidated : run_invalidation_pass passes.judged r.build_seq seen changed started_at =
    some passes.invalidated
  aliased : passes.aliased = run_alias_miner p passes.invalidated b.kb_version r.build_seq
  mined : passes.mined = run_ledger_alias_miner p passes.aliased b.kb_version r.build_seq
    b.retrieval_events b.window_start

theorem finalizes_of_finalize_graph (h : finalize_graph p b r seen changed started_at = some passes) :
    Finalizes p b r seen changed started_at passes := by
  simp only [finalize_graph, Option.bind_eq_bind, Option.bind_eq_some_iff, Option.some.injEq] at h
  obtain ⟨linked, hlinked, judged, hjudged, invalidated, hinvalidated, rfl⟩ := h
  exact ⟨hlinked, rfl, hjudged, hinvalidated, rfl, rfl⟩

namespace Finalizes

theorem onlyEdges_linked (h : Finalizes p b r seen changed started_at passes) :
    OnlyEdges p r passes.linked := onlyEdges_run_linker h.linked

theorem onlyEdges_generated (h : Finalizes p b r seen changed started_at passes) :
    OnlyEdges p r passes.generated := by
  rw [h.generated]
  exact h.onlyEdges_linked.trans (.of_sameCore sameCore_run_candidate_generator)

theorem onlyEdges_judged (h : Finalizes p b r seen changed started_at passes) :
    OnlyEdges p r passes.judged := by
  have hrun := h.judged
  unfold judge_links at hrun
  split at hrun
  · rw [← h.onlyEdges_generated.build_seq] at hrun
    exact h.onlyEdges_generated.trans (onlyEdges_run_judge hrun)
  · exact Option.some.inj hrun ▸ h.onlyEdges_generated

/-- What survives the links of the linker and of the judge holds when both are done. -/
theorem links_rule (h : Finalizes p b r seen changed started_at passes) {I : Registry → Prop}
    {ok ok' : Registry → Uuid × Uuid × EdgeType → Jsonb → Prop} (hlinker : LinkInvariant p r.build_seq .linker ok I)
    (hjudge : LinkInvariant p r.build_seq .llm_judge ok' I) (hr : I r)
    (hlinks : LinkerWrites ok p r b.kb_version r.build_seq b.similarity)
    (hrulings : ∀ judge ∈ b.judge, JudgeWrites ok' p passes.generated b.kb_version r.build_seq judge) :
    I passes.judged := by
  have hlinked : I passes.linked := (run_linker_rule hlinker rfl hr hlinks h.linked).1
  have hgenerated : I passes.generated := by
    rw [h.generated]
    exact hlinker.sameCore _ _ sameCore_run_candidate_generator hlinked
  have hrun := h.judged
  unfold judge_links at hrun
  split at hrun
  · rename_i judge hsome
    exact (run_judge_rule hjudge h.onlyEdges_generated.build_seq hgenerated (hrulings judge hsome) hrun).1
  · exact Option.some.inj hrun ▸ hgenerated

theorem invalidates (h : Finalizes p b r seen changed started_at passes) (hwf : WellFormed p r) :
    Invalidates p passes.judged (vanished_live_sources passes.judged seen started_at) seen changed
      passes.invalidated := by
  have hinv := h.invalidated
  rw [← h.onlyEdges_judged.build_seq] at hinv
  exact run_invalidation_pass_spec (h.onlyEdges_judged.wellFormed hwf) hinv

theorem invalidated_seq (h : Finalizes p b r seen changed started_at passes) (hwf : WellFormed p r) :
    passes.invalidated.build_seq = r.build_seq :=
  (h.invalidates hwf).build_seq.trans h.onlyEdges_judged.build_seq

theorem onlyAliases_aliased (h : Finalizes p b r seen changed started_at passes) (hwf : WellFormed p r)
    (hinj : Function.Injective p.gen_random_uuid) : OnlyAliases p passes.invalidated passes.aliased := by
  rw [h.aliased, ← h.invalidated_seq hwf]
  exact (run_alias_miner_spec _ (h.invalidates hwf).wellFormed hinj).1

theorem aliased_seq (h : Finalizes p b r seen changed started_at passes) (hwf : WellFormed p r)
    (hinj : Function.Injective p.gen_random_uuid) : passes.aliased.build_seq = r.build_seq :=
  (h.onlyAliases_aliased hwf hinj).build_seq.trans (h.invalidated_seq hwf)

theorem onlyAliases_mined (h : Finalizes p b r seen changed started_at passes) (hwf : WellFormed p r)
    (hinj : Function.Injective p.gen_random_uuid) : OnlyAliases p passes.invalidated passes.mined := by
  refine (h.onlyAliases_aliased hwf hinj).trans ?_
  rw [h.mined, ← h.aliased_seq hwf hinj]
  exact (run_ledger_alias_miner_spec _ _ _ hinj).1

theorem wellFormed_mined (h : Finalizes p b r seen changed started_at passes) (hwf : WellFormed p r)
    (hinj : Function.Injective p.gen_random_uuid) : WellFormed p passes.mined :=
  (h.onlyAliases_mined hwf hinj).wellFormed (h.invalidates hwf).wellFormed

end Finalizes

end Finalize

section Run

variable {p : Platform} {b : Build} {r : Registry}

/-- Every build of the sequence completes. -/
def AllComplete (p : Platform) (builds : List Build) : Prop :=
  Along (next p cached_generation) (fun r b => (run p cached_generation r b).finalized.isSome = true)
    Registry.empty builds

instance (builds : List Build) : Decidable (AllComplete p builds) := decidableAlong _ _ _ _

/-- A build over wiki pages, each extracted as one summary of its text. -/
def page_build (pages : List (String × String)) : Build :=
  { kb_version := "v"
    listing := pages.map fun (uri, text) => (.page uri, text)
    extract := fun fetched => some [⟨.summary, none, fetched.text, 1, 1⟩] }

/-- A build over two wiki pages: one is extracted as a concept with its text as title, the other as a
summary that mentions the concept `Alpha X`. -/
def concept_build (title : String) : Build :=
  { page_build [("concept", title), ("summary", "on Alpha X")] with
    extract := fun fetched => some <|
      if fetched.source.source_uri = "concept" then [⟨.concept, some fetched.text, "x", 1, 1⟩]
      else [⟨.summary, none, fetched.text, 1, 1⟩] }

/-- The started registry: only the sequence and the random ids have moved on. -/
theorem wellFormed_start_run {kb_version : String} (hwf : WellFormed p r) :
    WellFormed p (start_run p r kb_version) := by
  have hmoved := (hwf.set_build_seq (n := r.build_seq + 1) (by omega)).set_uuids (n := r.uuids + 1)
    (Nat.le_succ _)
  exact hmoved.of_sameCore ⟨rfl, rfl, rfl, rfl, rfl⟩

/-- How a build ends: what it has committed stands, or all of its passes do. -/
inductive RunEnd (p : Platform) (r : Registry) (b : Build) (outcome : Outcome) : Prop where
  | failed
      (hsources : process_sources p cached_generation b (start_run p r b.kb_version) = .error outcome.sources ∨
        process_sources p cached_generation b (start_run p r b.kb_version) = .ok outcome.sources)
      (hpasses : outcome.finalized = none) (hsame : SameCore outcome.sources.committed outcome.registry)
  | completed (passes : Finalized)
      (hsources : process_sources p cached_generation b (start_run p r b.kb_version) = .ok outcome.sources)
      (hpasses : outcome.finalized = some passes)
      (hfinal : Finalizes p b outcome.sources.current outcome.sources.seen outcome.sources.changed r.now passes)
      (hsame : SameCore passes.mined outcome.registry)

theorem sameCore_finish_run (r : Registry) (build_id : Uuid) (status : RunStatus) (failures : Nat) :
    SameCore r (finish_run r build_id status failures) := ⟨rfl, rfl, rfl, rfl, rfl⟩

theorem run_end (p : Platform) (r : Registry) (b : Build) : RunEnd p r b (run p cached_generation r b) := by
  have hfail : ∀ s, SameCore s.committed (fail_run (r.fresh p) s).registry := fun s =>
    ⟨rfl, rfl, rfl, rfl, rfl⟩
  unfold run
  dsimp only
  split
  · rename_i s hs
    exact .failed (.inl hs) rfl (hfail s)
  · rename_i s hs
    split
    · exact .failed (.inr hs) rfl (hfail s)
    · split
      · rename_i passes hpasses
        exact .completed passes hs rfl (finalizes_of_finalize_graph hpasses) (sameCore_finish_run _ _ _ _)
      · exact .failed (.inr hs) rfl (hfail s)

/-- A build seen from outside: the source loop it ran, and the passes over what it left. -/
theorem run_rule {turn_ok : SourceLoop → NormalizedContent → Prop}
    {repo_ok : SourceLoop → String × List CodeUnit → Prop} {R : Registry → List Uuid → Prop}
    (rule : LoopRule p b (r.build_seq + 1) turn_ok repo_ok R) (hwf : WellFormed p r)
    (hinj : Function.Injective p.gen_random_uuid) (hr : R (start_run p r b.kb_version) [])
    (hturns : Along (process_source p cached_generation b) turn_ok
      (.start (start_run p r b.kb_version)) (b.turns p))
    (hrepos : AlongM (graphify_one_repo p b) repo_ok (source_loop p b (start_run p r b.kb_version))
      (b.repos (source_loop p b (start_run p r b.kb_version)))) :
    SourcesGood p (r.build_seq + 1) R (run p cached_generation r b).sources := by
  refine process_sources_rule rule (wellFormed_start_run hwf) hinj rfl hr hturns hrepos ?_
  cases run_end p r b with
  | failed hsources => exact hsources
  | completed passes hsources => exact .inr hsources

/-- The same for what survives every turn and every repo. -/
theorem run_rule_of_any {R : Registry → List Uuid → Prop}
    (rule : LoopRule p b (r.build_seq + 1) (fun _ _ => True) (fun _ _ => True) R) (hwf : WellFormed p r)
    (hinj : Function.Injective p.gen_random_uuid) (hr : R (start_run p r b.kb_version) []) :
    SourcesGood p (r.build_seq + 1) R (run p cached_generation r b).sources :=
  run_rule rule hwf hinj hr (.of_forall fun _ _ _ => trivial) (.of_forall fun _ _ _ => trivial)

/-- The frame of any build. -/
theorem sourcesGood_run (hwf : WellFormed p r) (hinj : Function.Injective p.gen_random_uuid) :
    SourcesGood p (r.build_seq + 1) (fun _ _ => True) (run p cached_generation r b).sources :=
  run_rule_of_any loopRule_true hwf hinj trivial

/-- What build `n` has written so far is live. -/
def FreshLive (n : Nat) (r : Registry) : Prop := ∀ a ∈ r.artifacts, a.valid_from_seq = n → a.Live

/-- The source loop retires nothing. -/
private theorem loopRule_freshLive (n : Nat) :
    LoopRule p b n (fun _ _ => True) (fun _ _ => True) fun r _ => FreshLive n r where
  touched htouch h a ha hn := h a (htouch.artifacts ▸ ha) hn
  processed _ h _ _ _ _ hprocessed _ a ha hn := by
    rw [hprocessed.artifacts] at ha
    exact (List.mem_append.1 ha).elim (fun ha => h a ha hn) fun ha => (hprocessed.extracted a ha).introduced.2
  repo _ _ _ _ h _ _ hw a ha hn := by
    rw [hw.artifacts] at ha
    rcases List.mem_append.1 ha with ha | ha
    · exact h a ha hn
    · obtain ⟨path, unit, -, -, -, hext⟩ := hw.extracted a ha
      exact hext.introduced.2

theorem freshLive_sources (hwf : WellFormed p r) (hinj : Function.Injective p.gen_random_uuid) :
    FreshLive (r.build_seq + 1) (run p cached_generation r b).sources.current := by
  refine (run_rule_of_any (loopRule_freshLive (r.build_seq + 1)) hwf hinj fun a ha hn => ?_).current
  have := (hwf.artifacts_stamped a ha).1
  omega

theorem wellFormed_next (hwf : WellFormed p r) (hinj : Function.Injective p.gen_random_uuid) :
    WellFormed p (next p cached_generation r b) ∧
      (next p cached_generation r b).build_seq = r.build_seq + 1 := by
  have hgood := sourcesGood_run (b := b) hwf hinj
  cases run_end p r b with
  | failed hsources hpasses hsame =>
    exact ⟨hgood.committed_wellFormed.of_sameCore hsame, hsame.build_seq.trans hgood.committed_seq⟩
  | completed passes hsources hpasses hfinal hsame =>
    refine ⟨(hfinal.wellFormed_mined hgood.current_wellFormed hinj).of_sameCore hsame, ?_⟩
    have hmined := (hfinal.onlyAliases_mined hgood.current_wellFormed hinj).build_seq
    exact hsame.build_seq.trans (hmined.trans
      ((hfinal.invalidated_seq hgood.current_wellFormed).trans hgood.current_seq))

theorem wellFormed_history (hinj : Function.Injective p.gen_random_uuid) (builds : List Build) :
    WellFormed p (history p cached_generation builds) :=
  foldl_invariant (I := WellFormed p) (fun _ _ _ hwf => (wellFormed_next hwf hinj).1) (wellFormed_empty p)

end Run

end AgenticKb

import AgenticKb.Effects.CodeView

open AgenticKb.Lib

namespace AgenticKb

/-- No path has two texts. -/
def IsTree (files : List (String × String)) : Prop := ∀ file ∈ files, ∀ file' ∈ files, file.1 = file'.1 → file = file'

/-- An extractor that never raises and is a function of the file tree: its keys are those of the files and of the
symbols in them, and its edges join the artifacts it answers. -/
structure TreeExtractor (graphify_tree : List (String × String) → Option GraphifyResult) : Prop where
  total : ∀ files, ∃ result, graphify_tree files = some result
  tree : ∀ files files', IsTree files → SameMembers files files' → graphify_tree files = graphify_tree files'
  keys : ∀ files result, graphify_tree files = some result → ∀ draft ∈ result.artifacts,
    ∃ file ∈ files, draft.key = file_key file.1 ∨ ∃ name, draft.key = symbol_key file.1 name
  ends : ∀ files result, graphify_tree files = some result → ∀ draft ∈ result.edges,
    (∃ d ∈ result.artifacts, d.key = draft.from_key) ∧ ∃ d ∈ result.artifacts, d.key = draft.to_key

section Conditions

variable (p : Platform) (r : Registry) (b : Build)

/-- The code files a build lists. -/
def code_files : List NormalizedContent := (b.listing.map p.fetch).filter is_code_file

/-- Those of one repo, by path and text. -/
def tree_of (repo : String) : List (String × String) :=
  ((code_files p b).filter fun f => f.source.repo.getD "" == repo).map fun f => (f.source.path.getD "", f.text)

/-- After the build, if it completes, the code graph of every repo is what the extractor makes of its listed files. -/
def CodeGraphCurrent : Prop :=
  (run p cached_generation r b).finalized.isSome = true → ∀ repo result,
    b.graphify_tree (tree_of p b repo) = some result → ServesGraph (next p cached_generation r b) repo result

/-- No code file is listed with two texts. -/
def OneVersion : Prop := ∀ f ∈ code_files p b, ∀ f' ∈ code_files p b, f.place = f'.place → f.text = f'.text

/-- The keys of the symbols in a listed file split at the end of its path. -/
def PathsSplit : Prop :=
  ∀ f ∈ code_files p b, before_first "::" (f.source.path.getD "" ++ "::") = f.source.path.getD ""

/-- No code file is listed again with the text that it was tombstoned with. -/
def NoneRevived : Prop := ∀ f ∈ code_files p b, ∀ row ∈ r.source_items,
  same_source f row = true → row.content_hash = f.content_hash → row.is_deleted = false

/-- Some listed code file has changed, or no code file has disappeared. -/
def ChangedOrAllListed : Prop :=
  (∃ f ∈ code_files p b, is_unchanged r f = false) ∨
    ∀ row ∈ r.source_items, is_code_item row = true → row.is_deleted = false →
      ∃ f ∈ code_files p b, same_source f row = true

/-- No code file that disappears counts as renamed. -/
def NoneRenamed : Prop :=
  ∀ rename ∈ (run p cached_generation r b).sources.renames r.now,
    ∀ row ∈ (run p cached_generation r b).sources.current.source_items, row.source_id = rename.old_source_id →
      is_code_item row = false

/-- A build that fails does so before it has committed its code graph. -/
def CodeUncommitted : Prop :=
  (process_sources p cached_generation b (start_run p r b.kb_version)).isOk = false ∨
    ∀ f ∈ code_files p b, is_unchanged r f = true

/-- Where the build completes, it keeps or rewrites the code graph as a rewrite from scratch would. -/
structure TreeFollowed : Prop where
  one : OneVersion p b
  split : PathsSplit p b
  revived : NoneRevived p r b
  changed : ChangedOrAllListed p r b
  renamed : NoneRenamed p r b

/-- The build leaves a code graph from which later ones go on: that of its tree if it completes, and else the one it
has found. -/
def CodeFollowed : Prop :=
  ((run p cached_generation r b).finalized.isSome = true → TreeFollowed p r b) ∧
    ((run p cached_generation r b).finalized.isSome = false → CodeUncommitted p r b)

instance : Decidable (OneVersion p b) := inferInstanceAs (Decidable (∀ f ∈ code_files p b, ∀ f' ∈ code_files p b, _ → _))

instance : Decidable (PathsSplit p b) := inferInstanceAs (Decidable (∀ f ∈ code_files p b, _))

instance : Decidable (NoneRevived p r b) :=
  inferInstanceAs (Decidable (∀ f ∈ code_files p b, ∀ row ∈ r.source_items, _ → _ → _))

instance : Decidable (ChangedOrAllListed p r b) :=
  inferInstanceAs (Decidable ((∃ f ∈ code_files p b, _) ∨ ∀ row ∈ r.source_items, _ → _ → ∃ f ∈ code_files p b, _))

instance : Decidable (NoneRenamed p r b) :=
  inferInstanceAs (Decidable (∀ rename ∈ _, ∀ row ∈ _, _ → _))

instance : Decidable (CodeUncommitted p r b) := inferInstanceAs (Decidable (_ ∨ ∀ f ∈ code_files p b, _))

instance : Decidable (TreeFollowed p r b) :=
  decidable_of_iff (OneVersion p b ∧ PathsSplit p b ∧ NoneRevived p r b ∧ ChangedOrAllListed p r b ∧ NoneRenamed p r b)
    ⟨fun h => ⟨h.1, h.2.1, h.2.2.1, h.2.2.2.1, h.2.2.2.2⟩, fun h => ⟨h.one, h.split, h.revived, h.changed, h.renamed⟩⟩

instance : Decidable (CodeFollowed p r b) := inferInstanceAs (Decidable ((_ → _) ∧ (_ → _)))

end Conditions

/-- The registry serves the code graph of these files, repo by repo, and its live code rows are theirs. -/
structure TreeServed (place : SourceType × String → String × String) (p : Platform)
    (graphify_tree : List (String × String) → Option GraphifyResult) (r : Registry)
    (files : String → List (String × String)) : Prop where
  trees : ∀ repo, IsTree (files repo)
  live_rows : ∀ row ∈ r.source_items, CodeKey place row.key → row.is_deleted = false →
    ∃ file ∈ files (place row.key).1, file.1 = (place row.key).2 ∧ row.content_hash = p.content_hash file.2
  listed : ∀ repo, ∀ file ∈ files repo, ∃ row ∈ r.source_items, CodeKey place row.key ∧ row.is_deleted = false ∧
    place row.key = (repo, file.1) ∧ row.content_hash = p.content_hash file.2
  homes : ∀ a, LiveCode place r a → ∀ row ∈ r.source_items, row.source_id = a.source_id → row.is_deleted = false
  joins : JoinsRepos place r
  serves : ∀ repo result, graphify_tree (files repo) = some result → ServesGraph r repo result

section Served

variable {place : SourceType × String → String × String} {p : Platform} {b : Build} {r r' : Registry}
  {graphify_tree : List (String × String) → Option GraphifyResult} {files files' : String → List (String × String)}

/-- The extractor sees a tree only through its files. -/
theorem TreeServed.congr (h : TreeServed place p graphify_tree r files) (hextractor : TreeExtractor graphify_tree)
    (hfiles : ∀ repo, SameMembers (files repo) (files' repo)) : TreeServed place p graphify_tree r files' := by
  refine ⟨fun repo file hfile file' hfile' => ?_, fun row hrow hkey hlive => ?_, fun repo file hfile => ?_, h.homes,
    h.joins, fun repo result hresult => ?_⟩
  · exact h.trees repo file ((hfiles repo file).2 hfile) file' ((hfiles repo file').2 hfile')
  · obtain ⟨file, hfile, hrest⟩ := h.live_rows row hrow hkey hlive
    exact ⟨file, (hfiles _ file).1 hfile, hrest⟩
  · exact h.listed repo file ((hfiles repo file).2 hfile)
  · rw [← hextractor.tree _ _ (h.trees repo) (hfiles repo)] at hresult
    exact h.serves repo result hresult

/-- The same code graph, under the same live rows, serves the same files. -/
theorem TreeServed.of_same (h : TreeServed place p graphify_tree r files) (hsame : SameCode place r r')
    (hwf : WellFormed p r) (hwf' : WellFormed p r') (hplaced : RowsPlaced place r) (hplaced' : RowsPlaced place r')
    (hfrom : ∀ row' ∈ r'.source_items, CodeKey place row'.key → row'.is_deleted = false →
      ∃ row ∈ r.source_items, Touched row row')
    (hto : ∀ row ∈ r.source_items, CodeKey place row.key → row.is_deleted = false →
      ∃ row' ∈ r'.source_items, Touched row row') : TreeServed place p graphify_tree r' files := by
  refine ⟨h.trees, fun row' hrow' hkey hlive => ?_, fun repo file hfile => ?_, fun a' ha' row' hrow' hid => ?_,
    hsame.joinsRepos h.joins, fun repo result hresult => ?_⟩
  · obtain ⟨row, hrow, hk⟩ := hfrom row' hrow' hkey hlive
    rw [hk.2.1] at hkey ⊢
    rw [hk.2.2.1]
    exact h.live_rows row hrow hkey (hk.2.2.2.symm.trans hlive)
  · obtain ⟨row, hrow, hkey, hlive, hplace, hhash⟩ := h.listed repo file hfile
    obtain ⟨row', hrow', hk⟩ := hto row hrow hkey hlive
    rw [← hk.2.1] at hkey hplace
    exact ⟨row', hrow', hkey, hk.2.2.2.trans hlive, hplace, hk.2.2.1.trans hhash⟩
  · obtain ⟨a, ha, -, hsame'⟩ := hsame.artifacts_from a' ha'
    obtain ⟨row, hrow, hid', hkey⟩ := ha.home
    have hlive := h.homes a ha row hrow hid'
    obtain ⟨row₁, hrow₁, hk⟩ := hto row hrow hkey hlive
    rw [hwf'.source_eq hrow' hrow₁ (hid.trans (hsame'.source_id.trans (hid'.symm.trans hk.1.symm)))]
    exact hk.2.2.2.trans hlive
  · exact hsame.servesGraph hwf hwf' hplaced hplaced' h.joins (h.serves repo result hresult)

end Served

/-- What holds between two builds. -/
structure CodeState (place : SourceType × String → String × String) (p : Platform)
    (graphify_tree : List (String × String) → Option GraphifyResult) (r : Registry)
    (files : String → List (String × String)) : Prop where
  wellFormed : WellFormed p r
  recorded : RecordedBefore r
  placed : RowsPlaced place r
  served : TreeServed place p graphify_tree r files

section Sources

variable {place : SourceType × String → String × String} {p : Platform} {b : Build} {r : Registry} {s : SourceLoop}

theorem mem_tree_of {repo : String} {file : String × String} :
    file ∈ tree_of p b repo ↔ ∃ f ∈ code_files p b, f.place = (repo, file.1) ∧ f.text = file.2 := by
  simp only [tree_of, List.mem_map, List.mem_filter, beq_iff_eq, NormalizedContent.place, Prod.ext_iff]
  grind

theorem is_unchanged_start_run {fetched : NormalizedContent} :
    is_unchanged (start_run p r b.kb_version) fetched = is_unchanged r fetched := rfl

/-- A listed code file has a code key, names its place, and is stamped with the digest of its text. -/
theorem mem_code_files (hplaced : ∀ f ∈ b.listing.map p.fetch, Placed place f) {f : NormalizedContent}
    (hf : f ∈ code_files p b) :
    CodeKey place f.key ∧ place f.key = f.place ∧ f.content_hash = p.content_hash f.text := by
  obtain ⟨hlisted, hcode⟩ := List.mem_filter.1 hf
  have hplace := hplaced f hlisted
  refine ⟨hplace.is_code_file_iff.1 hcode, Eq.symm hplace, ?_⟩
  obtain ⟨entry, -, rfl⟩ := List.mem_map.1 hlisted
  rfl

/-- When no listed code file has changed, the build touches the code files and leaves them alone. -/
theorem codeKept_of_unchanged (hwf : WellFormed p r) (hinj : Function.Injective p.gen_random_uuid)
    (hplaced : ∀ f ∈ b.turns p, Placed place f) (h : process_sources p cached_generation b r = .ok s)
    (hcode : (source_loop p b r).any_code_changed = false) :
    CodeKept place r s.current ∧ ProseChanged place s.current s.changed ∧
      ∀ f ∈ code_files p b, ∀ row ∈ s.current.source_items, same_source f row = true → row.source_id ∈ s.seen := by
  have hcollected := codeCollected_source_loop hwf hinj hplaced
  have hturns := turns_of_process_sources h
  have hend := process_sources_end p b r
  rw [h] at hend
  cases hend with
  | rewritten s' hcode' => simp [hcode] at hcode'
  | kept =>
    obtain ⟨r', ids, heq, htouch, hseen⟩ :=
      touch_units_spec hcollected.turning.loop.current (source_loop p b r).code_units
    rw [heq]
    have hcurrent := hcollected.turning.current
    refine ⟨hcurrent.1.touched htouch, hcurrent.2.touched htouch, fun f hf row hrow hsame => ?_⟩
    have hunit : code_unit r f ∈ (source_loop p b r).code_units := by
      rw [hcollected.code_units, hturns]
      exact List.mem_map_of_mem hf
    obtain ⟨row₀, hrow₀, hk⟩ := htouch.origin hrow
    rw [same_source_iff] at hsame
    have hid := hseen (code_unit r f) hunit row₀ hrow₀ (same_source_iff.2 (hk.2.1.symm.trans hsame))
    exact List.mem_append_right _ (hk.1 ▸ hid)

/-- When one has, the build rewrites the graphs of all listed repos. -/
theorem treeRewritten_of_changed (hwf : WellFormed p r) (hinj : Function.Injective p.gen_random_uuid)
    (hplaced : ∀ f ∈ b.turns p, Placed place f) (h : process_sources p cached_generation b r = .ok s)
    (hcode : (source_loop p b r).any_code_changed = true)
    (hanswered : ∀ entry ∈ units_by_repo (source_loop p b r).code_units, ∃ result, Answered b entry.2 result) :
    ∃ s' added links, s = s'.commit ∧ TreeRewritten place p b r.build_seq (source_loop p b r).code_units
      (source_loop p b r) s' (units_by_repo (source_loop p b r).code_units) added links := by
  have hcollected := codeCollected_source_loop hwf hinj hplaced
  have hend := process_sources_end p b r
  rw [h] at hend
  cases hend with
  | kept hcode' => simp [hcode] at hcode'
  | rewritten s' _ hrepos hrun =>
    have hloop := hcollected.turning.loop
    have hunits : ∀ unit ∈ (source_loop p b r).code_units,
        CodeKey place unit.fetched.key ∧ place unit.fetched.key = (unit.repo, unit.path) := by
      rw [hcollected.code_units]
      intro unit hunit
      obtain ⟨f, hf, rfl⟩ := List.mem_map.1 hunit
      obtain ⟨hmem, hcodefile⟩ := List.mem_filter.1 hf
      exact ⟨(hplaced f hmem).is_code_file_iff.1 hcodefile, Eq.symm (hplaced f hmem)⟩
    rw [hrepos] at hrun
    obtain ⟨added, links, hrewritten⟩ :=
      treeRewritten_units_by_repo hinj hloop.current hloop.current_rows hunits hanswered hrun
    rw [hloop.current_build_seq] at hrewritten
    exact ⟨s', added, links, rfl, hrewritten⟩

/-- An interrupted loop ends where its sources do. -/
theorem eq_of_process_sources_error (h : process_sources p cached_generation b r = .error s) :
    s = source_loop p b r := by
  have hend := process_sources_end p b r
  rw [h] at hend
  cases hend with
  | interrupted => rfl

/-- Touching unchanged files commits nothing. -/
theorem committed_of_unchanged (hwf : WellFormed p (source_loop p b r).current)
    (h : process_sources p cached_generation b r = .ok s) (hcode : (source_loop p b r).any_code_changed = false) :
    s.committed = (source_loop p b r).committed := by
  have hend := process_sources_end p b r
  rw [h] at hend
  cases hend with
  | rewritten s' hcode' => simp [hcode] at hcode'
  | kept =>
    obtain ⟨r', ids, heq, -, -⟩ := touch_units_spec hwf (source_loop p b r).code_units
    rw [heq]

/-- A completed build has taken its whole listing in. -/
theorem sources_of_completed (hdone : (run p cached_generation r b).finalized.isSome = true) :
    process_sources p cached_generation b (start_run p r b.kb_version) = .ok (run p cached_generation r b).sources := by
  cases run_end p r b with
  | failed hsources hpasses => simp [hpasses] at hdone
  | completed passes hsources => exact hsources

end Sources

section Steps

variable {place : SourceType × String → String × String} {p : Platform} {b : Build} {r : Registry}
  {graphify_tree : List (String × String) → Option GraphifyResult} {files : String → List (String × String)}

/-- No code file counts as renamed: its row is that of a code file by its own fields, too. -/
theorem TreeFollowed.noCodeRename (h : TreeFollowed p r b)
    (hplaced : RowsPlaced place (run p cached_generation r b).sources.current) :
    NoCodeRename place (run p cached_generation r b).sources r.now := by
  rintro rename hrename ⟨row, hrow, hid, hkey⟩
  have hcode := h.renamed rename hrename row hrow hid
  rw [(hplaced.is_code_item_iff hrow).2 hkey] at hcode
  cases hcode

/-- When nothing has changed and nothing has disappeared, the tree is the one served before. -/
theorem CodeState.sameTree (h : CodeState place p graphify_tree r files)
    (hcontent : Function.Injective p.content_hash) (hplaced : ∀ f ∈ b.listing.map p.fetch, Placed place f)
    (hok : TreeFollowed p r b) (hunchanged : ∀ f ∈ code_files p b, is_unchanged r f = true)
    (hlisted : ∀ row ∈ r.source_items, is_code_item row = true → row.is_deleted = false →
      ∃ f ∈ code_files p b, same_source f row = true) (repo : String) :
    SameMembers (files repo) (tree_of p b repo) := by
  intro file
  rw [mem_tree_of]
  constructor
  · intro hfile
    obtain ⟨row, hrow, hkey, hlive, hplace, hhash⟩ := h.served.listed repo file hfile
    obtain ⟨f, hf, hsame⟩ := hlisted row hrow ((h.placed.is_code_item_iff hrow).2 hkey) hlive
    obtain ⟨-, hfplace, hfhash⟩ := mem_code_files hplaced hf
    obtain ⟨found, hfound, hequal⟩ := is_unchanged_eq_true (hunchanged f hf)
    rw [h.wellFormed.source_row_eq hrow hsame] at hfound
    rw [← Option.some.inj hfound, hhash, hfhash] at hequal
    refine ⟨f, hf, ?_, (hcontent hequal).symm⟩
    rw [← hfplace, ← same_source_iff.1 hsame, hplace]
  · rintro ⟨f, hf, hplace, htext⟩
    obtain ⟨hkey, hfplace, hfhash⟩ := mem_code_files hplaced hf
    obtain ⟨row, hfound, hequal⟩ := is_unchanged_eq_true (hunchanged f hf)
    obtain ⟨hrow, hsame⟩ := source_row_eq_some hfound
    have hrowkey : row.key = f.key := same_source_iff.1 hsame
    obtain ⟨other, hother, hpath, hhash⟩ := h.served.live_rows row hrow (hrowkey ▸ hkey)
      (hok.revived f hf row hrow hsame hequal)
    rw [hrowkey, hfplace, hplace] at hother hpath
    rw [hequal, hfhash] at hhash
    have heq : other = file := Prod.ext hpath ((hcontent hhash).symm.trans htext)
    exact heq ▸ hother

/-- A completed build that finds nothing changed keeps the code graph, which is that of its tree. -/
theorem CodeState.treeServed_unchanged (h : CodeState place p graphify_tree r files)
    (hextractor : TreeExtractor graphify_tree) (hinj : Function.Injective p.gen_random_uuid)
    (hcontent : Function.Injective p.content_hash) (hplaced : ∀ f ∈ b.listing.map p.fetch, Placed place f)
    (hdone : (run p cached_generation r b).finalized.isSome = true) (hok : TreeFollowed p r b)
    (hcode : (source_loop p b (start_run p r b.kb_version)).any_code_changed = false) :
    TreeServed place p graphify_tree (next p cached_generation r b) (tree_of p b) := by
  have hsources := sources_of_completed hdone
  have hturns := turns_of_process_sources hsources
  have hplacedturns : ∀ f ∈ b.turns p, Placed place f := hturns ▸ hplaced
  have hstart : WellFormed p (start_run p r b.kb_version) := wellFormed_start_run h.wellFormed
  have hcollected := codeCollected_source_loop hstart hinj hplacedturns
  have hunchanged : ∀ f ∈ code_files p b, is_unchanged r f = true := by
    intro f hf
    rw [hcollected.any_code_changed, hcollected.code_units, hturns, List.any_eq_false] at hcode
    have hfile := hcode (code_unit (start_run p r b.kb_version) f) (List.mem_map_of_mem hf)
    simpa [code_unit, is_unchanged_start_run] using hfile
  have hnochange : ¬ ∃ f ∈ code_files p b, is_unchanged r f = false := by
    rintro ⟨f, hf, hchanged⟩
    exact Bool.false_ne_true (hchanged.symm.trans (hunchanged f hf))
  have hlisted := hok.changed.resolve_left hnochange
  obtain ⟨hkept', hprose, hseen⟩ := codeKept_of_unchanged hstart hinj hplacedturns hsources hcode
  have hkept : CodeKept place r (run p cached_generation r b).sources.current :=
    ⟨hkept'.rows_to, hkept'.rows_from, hkept'.artifacts, hkept'.edges⟩
  have hwf := (sourcesGood_run (b := b) h.wellFormed hinj).current_wellFormed
  have hcompletes := completes_run h.wellFormed hinj hdone
  obtain ⟨hwf', -⟩ := wellFormed_next (b := b) h.wellFormed hinj
  have hrename := hok.noCodeRename (rowsPlaced_run h.wellFormed hinj h.placed hplacedturns)
  -- the row of a code file that is live has been seen
  have hrowseen : ∀ row ∈ r.source_items, CodeKey place row.key → row.is_deleted = false →
      ∃ row' ∈ (run p cached_generation r b).sources.current.source_items, Touched row row' ∧
        row'.source_id ∉ (run p cached_generation r b).sources.vanished r.now := by
    intro row hrow hkey hlive
    obtain ⟨f, hf, hsame⟩ := hlisted row hrow ((h.placed.is_code_item_iff hrow).2 hkey) hlive
    obtain ⟨row', hrow', hk⟩ := hkept.rows_to row hrow hkey
    rw [same_source_iff] at hsame
    have hrowid := hseen f hf row' hrow' (same_source_iff.2 (hk.2.1.trans hsame))
    exact ⟨row', hrow', hk, fun hgone => not_seen_of_mem_vanished hgone hrowid⟩
  have hspared : ∀ a, LiveCode place (run p cached_generation r b).sources.current a →
      Spared (run p cached_generation r b).sources r.now a := by
    intro a ha
    have hold := (hkept.liveCode_iff hwf).1 ha
    obtain ⟨row, hrow, hid, hkey⟩ := hold.home
    obtain ⟨row', hrow', hk, hstays⟩ := hrowseen row hrow hkey (h.served.homes a hold row hrow hid)
    have hid' : row'.source_id = a.source_id := hk.1.trans hid
    refine ⟨hid' ▸ hstays, fun hchanged => ?_⟩
    obtain ⟨other, hother, hotherid, hnotcode⟩ := hprose a.source_id hchanged
    rw [hwf.source_eq hother hrow' (hotherid.trans hid'.symm), hk.2.1] at hnotcode
    exact absurd hkey hnotcode
  have hcurrent : SameCode place r (run p cached_generation r b).sources.current := hkept.sameCode hwf
  have hrestricts := hcompletes.codeRestricts hwf (hcurrent.joinsRepos h.served.joins).closed hrename
  have hsame : SameCode place r (next p cached_generation r b) :=
    hcurrent.trans (hrestricts.imp fun a ha => iff_of_true (hspared a ha) trivial)
  refine TreeServed.congr (h.served.of_same hsame h.wellFormed hwf' h.placed
    (rowsPlaced_next h.wellFormed hinj h.placed hplacedturns) ?_ ?_) hextractor
      (h.sameTree hcontent hplaced hok hunchanged hlisted)
  · intro row' hrow' hkey hlive
    obtain ⟨row, hrow, hk⟩ := (hcompletes.source_items.origin hrow').resolve_right False.elim
    obtain rfl := hk.eq_of_not_mem (hk.live_iff.1 hlive).2
    exact hkept.rows_from row' hrow hkey
  · intro row hrow hkey hlive
    obtain ⟨row₁, hrow₁, hk, hstays⟩ := hrowseen row hrow hkey hlive
    obtain ⟨row', hrow', hk'⟩ := hcompletes.source_items.successor hrow₁
    rw [hk'.eq_of_not_mem fun hgone => hstays (vanished_of_mem_tombstoned hgone)] at hrow'
    exact ⟨row₁, hrow', hk⟩

/-- The files of a repo, as the pass gives them to the extractor. -/
theorem CodeCollected.files_eq {r₀ : Registry} {s : SourceLoop} (h : CodeCollected place p b r₀ (b.listing.map p.fetch) s)
    {entry : String × List CodeUnit} (hentry : entry ∈ units_by_repo s.code_units) :
    entry.2.map (fun unit => (unit.path, unit.fetched.text)) = tree_of p b entry.1 := by
  have hgroup : entry.2 = s.code_units.filter fun unit => unit.repo == entry.1 :=
    Dict.group_eq_filter (fun unit : CodeUnit => unit.repo) (mem_sorted.1 hentry)
  rw [hgroup, h.code_units, List.filter_map, List.map_map]
  rfl

/-- The extractor's answer for the files of a repo has drafts of these files only. -/
theorem TreeExtractor.answered (h : TreeExtractor b.graphify_tree) (hsplit : PathsSplit p b) {units : List CodeUnit}
    {repo : String} (hfiles : units.map (fun unit => (unit.path, unit.fetched.text)) = tree_of p b repo)
    {result : GraphifyResult} (hresult : b.graphify_tree (tree_of p b repo) = some result) :
    Answered b units result := by
  refine ⟨hfiles ▸ hresult, fun draft hdraft => ?_, h.ends _ _ hresult⟩
  obtain ⟨file, hfile, hkey⟩ := h.keys _ _ hresult draft hdraft
  have hpath : path_of_code_key draft.key = file.1 := by
    cases hkey with
    | inl hfilekey => rw [hfilekey, path_of_code_key_file_key]
    | inr hsymbol =>
      obtain ⟨name, hsymbol⟩ := hsymbol
      obtain ⟨f, hf, hplace, -⟩ := mem_tree_of.1 hfile
      have hname : f.source.path.getD "" = file.1 := congrArg Prod.snd hplace
      rw [hsymbol, path_of_code_key_symbol_key (hname ▸ hsplit f hf)]
  rw [← hfiles] at hfile
  obtain ⟨unit, hunit, hname⟩ := List.mem_map.1 hfile
  exact ⟨unit, hunit, by rw [hpath, ← hname]⟩

/-- A completed build that has rewritten the code graph, and what its pass has added. -/
structure TreePassed (place : SourceType × String → String × String) (p : Platform) (b : Build) (r : Registry)
    (s s' : SourceLoop) (added : List KnowledgeArtifact) (links : List KnowledgeEdge) : Prop where
  sources : (run p cached_generation r b).sources = s'.commit
  collected : CodeCollected place p b (start_run p r b.kb_version) (b.listing.map p.fetch) s
  rewritten : TreeRewritten place p b (r.build_seq + 1) s.code_units s s' (units_by_repo s.code_units) added links

/-- The row of every listed code file holds its text, is live, and counts as seen and changed. -/
theorem TreePassed.recorded {s s' : SourceLoop} {added : List KnowledgeArtifact} {links : List KnowledgeEdge}
    (h : TreePassed place p b r s s' added links) (hwf : WellFormed p r)
    (hplaced : ∀ f ∈ b.listing.map p.fetch, Placed place f) (hok : TreeFollowed p r b) {f : NormalizedContent}
    (hf : f ∈ code_files p b) : ∃ row ∈ s'.current.source_items, same_source f row = true ∧ row.source_id ∈ s'.seen ∧
      row.source_id ∈ s'.changed ∧ row.content_hash = f.content_hash ∧ row.is_deleted = false := by
  have hstart : WellFormed p (start_run p r b.kb_version) := wellFormed_start_run hwf
  have hunits : ∀ unit ∈ s.code_units, ∃ f ∈ code_files p b, code_unit (start_run p r b.kb_version) f = unit := by
    rw [h.collected.code_units]
    exact fun unit hunit => List.mem_map.1 hunit
  have hunit : code_unit (start_run p r b.kb_version) f ∈ s.code_units := by
    rw [h.collected.code_units]
    exact List.mem_map_of_mem hf
  obtain ⟨entry, hentry, hmem⟩ := exists_units_by_repo hunit
  refine h.rewritten.holds ?_ ?_ hentry hmem hunit
  · intro unit hu unit' hu' hkey
    obtain ⟨g, hg, rfl⟩ := hunits unit hu
    obtain ⟨g', hg', rfl⟩ := hunits unit' hu'
    obtain ⟨-, hplace, hhash⟩ := mem_code_files hplaced hg
    obtain ⟨-, hplace', hhash'⟩ := mem_code_files hplaced hg'
    have hsamekey : g.key = g'.key := hkey
    have htext : g.text = g'.text := hok.one g hg g' hg' (hplace.symm.trans (hsamekey ▸ hplace'))
    change g.content_hash = g'.content_hash
    rw [hhash, hhash', htext]
  · intro unit hu hunchanged row hrow hsame
    obtain ⟨g, hg, rfl⟩ := hunits unit hu
    obtain ⟨hkey, -, -⟩ := mem_code_files hplaced hg
    have hrowkey : row.key = g.key := same_source_iff.1 hsame
    obtain ⟨row₀, hrow₀, hk⟩ := h.collected.turning.current.1.rows_from row hrow (hrowkey ▸ hkey)
    have hsame₀ : same_source g row₀ = true := same_source_iff.2 (hk.2.1.symm.trans hrowkey)
    have hequal : is_unchanged r g = true := by simpa [code_unit, is_unchanged_start_run] using hunchanged
    obtain ⟨found, hfound, hhash⟩ := is_unchanged_eq_true hequal
    rw [hwf.source_row_eq hrow₀ hsame₀] at hfound
    obtain rfl := Option.some.inj hfound
    exact ⟨hk.2.2.1.trans hhash, hk.2.2.2.trans (hok.revived g hg row₀ hrow₀ hsame₀ hhash)⟩

/-- A live code row that the build does not list has vanished when its sources are done. -/
theorem CodeState.vanished_of_unlisted (h : CodeState place p graphify_tree r files)
    (hinj : Function.Injective p.gen_random_uuid) (hplaced : ∀ f ∈ b.listing.map p.fetch, Placed place f)
    {row : SourceItem} (hrow : row ∈ r.source_items) (hkey : CodeKey place row.key) (hlive : row.is_deleted = false)
    (hunlisted : ∀ f ∈ code_files p b, f.key ≠ row.key) :
    row ∈ (run p cached_generation r b).sources.current.source_items ∧
      row.source_id ∈ (run p cached_generation r b).sources.vanished r.now := by
  have hothers : ∀ f ∈ b.turns p, f.key ≠ row.key := by
    intro f hf hsame
    have hlisted := mem_listing_of_mem_turns hf
    have hcode := (hplaced f hlisted).is_code_file_iff.2 (hsame ▸ hkey)
    exact hunlisted f (List.mem_filter.2 ⟨hlisted, hcode⟩) hsame
  have hunits : ∀ unit ∈ (source_loop p b (start_run p r b.kb_version)).code_units, unit.fetched.key ≠ row.key :=
    fun unit hunit => hothers _ (unit_of_source_loop hinj (wellFormed_start_run h.wellFormed) hunit).1
  exact unrecorded_row_vanished h.wellFormed hinj h.recorded hrow hlive (fun f hf _ => hothers f hf)
    ⟨fun _ => hunits, fun entry hentry _ unit hunit => hunits unit (mem_code_units_of_mem_repos hentry hunit)⟩ _ rfl

section Passed

variable {s s' : SourceLoop} {added : List KnowledgeArtifact} {links : List KnowledgeEdge}
  {a : KnowledgeArtifact}

/-- The pass writes live code artifacts … -/
theorem TreePassed.liveCode_of_added (h : TreePassed place p b r s s' added links) (ha : a ∈ added) :
    LiveCode place s'.current a := by
  obtain ⟨entry, -, -, result, -, draft, -, hwritten⟩ := h.rewritten.sound a ha
  obtain ⟨row, hrow, hid, hkey, -⟩ := hwritten.home
  refine ⟨?_, hwritten.written.introduced.2, ?_, row, hrow, hid, hkey⟩
  · rw [h.rewritten.artifacts]
    exact List.mem_append_right _ ha
  · rw [hwritten.written.artifact_type]
    exact draft.artifact_type.artifact_type_ne_alias

/-- … and these are what the sweeps spare: what was there before vanishes or is superseded. -/
theorem TreePassed.spared_iff (h : TreePassed place p b r s s' added links)
    (hstate : CodeState place p graphify_tree r files) (hinj : Function.Injective p.gen_random_uuid)
    (hplaced : ∀ f ∈ b.listing.map p.fetch, Placed place f) (hok : TreeFollowed p r b)
    (ha : LiveCode place s'.current a) : Spared s'.commit r.now a ↔ a ∈ added := by
  have hrecorded := fun f hf => h.recorded hstate.wellFormed hplaced hok (f := f) hf
  have hseq : s'.commit.current.build_seq = r.build_seq + 1 := h.rewritten.build_seq
  have hwf := h.rewritten.wellFormed
  constructor
  · intro hspared
    have hmem := ha.mem
    rw [h.rewritten.artifacts] at hmem
    refine (List.mem_append.1 hmem).resolve_left fun hbefore => ?_
    obtain ⟨prose, hprose, hnotcode⟩ := h.collected.turning.current.1.artifacts
    obtain ⟨row, hrow, hid, hkey⟩ := ha.home
    rw [hprose] at hbefore
    have hold : a ∈ r.artifacts := by
      refine (List.mem_append.1 hbefore).resolve_right fun hnew => ?_
      obtain ⟨other, hother, hotherid, hother'⟩ := (hnotcode a hnew).persist h.rewritten.persist
      exact hother' (hwf.source_eq hother hrow (hotherid.trans hid.symm) ▸ hkey)
    by_cases hlisted : ∃ f ∈ code_files p b, f.key = row.key
    · obtain ⟨f, hf, hsame⟩ := hlisted
      obtain ⟨row', hrow', hsame', -, hchanged, -⟩ := hrecorded f hf
      rw [hwf.source_eq_of_key hrow' hrow ((same_source_iff.1 hsame').trans hsame), hid] at hchanged
      have hstamp := (hstate.wellFormed.artifacts_stamped a hold).1
      have hlate := hspared.2 hchanged
      omega
    · have hunlisted : ∀ f ∈ code_files p b, f.key ≠ row.key := fun f hf hsame => hlisted ⟨f, hf, hsame⟩
      have hkept : ∃ row₀ ∈ r.source_items, Touched row₀ row := by
        cases h.rewritten.origin row hrow with
        | inr hadvanced =>
          obtain ⟨unit, hunit, -, hsame, -⟩ := hadvanced
          rw [h.collected.code_units] at hunit
          obtain ⟨f, hf, rfl⟩ := List.mem_map.1 hunit
          exact absurd (same_source_iff.1 hsame).symm (hunlisted f hf)
        | inl htouched =>
          obtain ⟨row₁, hrow₁, hk⟩ := htouched
          obtain ⟨row₀, hrow₀, hk₀⟩ := h.collected.turning.current.1.rows_from row₁ hrow₁ (hk.2.1 ▸ hkey)
          exact ⟨row₀, hrow₀, hk₀.trans hk⟩
      obtain ⟨row₀, hrow₀, hk⟩ := hkept
      have hkey₀ : CodeKey place row₀.key := hk.2.1 ▸ hkey
      have hid₀ : row₀.source_id = a.source_id := hk.1.symm.trans hid
      have hlive := hstate.served.homes a ⟨hold, ha.live, ha.not_alias, row₀, hrow₀, hid₀, hkey₀⟩ row₀ hrow₀ hid₀
      obtain ⟨-, hgone⟩ := hstate.vanished_of_unlisted hinj hplaced hrow₀ hkey₀ hlive fun f hf =>
        hk.2.1 ▸ hunlisted f hf
      rw [h.sources, hid₀] at hgone
      exact hspared.1 hgone
  · intro hadded
    obtain ⟨entry, hentry, ⟨unit, hunit, row, hrow, hid, hkey⟩, _, -, _, -, hwritten⟩ := h.rewritten.sound a hadded
    obtain ⟨hmem, -⟩ := mem_units_by_repo hentry unit hunit
    rw [h.collected.code_units] at hmem
    obtain ⟨f, hf, rfl⟩ := List.mem_map.1 hmem
    obtain ⟨row', hrow', hsame, hseen, -⟩ := hrecorded f hf
    rw [hwf.source_eq_of_key hrow' hrow ((same_source_iff.1 hsame).trans hkey.symm), hid] at hseen
    refine ⟨fun hgone => not_seen_of_mem_vanished hgone hseen, fun _ => ?_⟩
    rw [hseq]
    exact hwritten.written.introduced.1.ge

theorem TreePassed.showsAs (h : TreePassed place p b r s s' added links) (ha : a ∈ added) {n : Nat} {repo : String}
    {draft : CodeArtifactDraft} (hwritten : DraftWritten place n s'.current repo draft a) :
    ShowsAs place s'.current repo (draft_node draft) a :=
  ⟨h.liveCode_of_added ha, hwritten.home, hwritten.written.title, hwritten.written.body_text⟩

/-- The edges after the pass join artifacts of one repo, the old ones as before. -/
theorem TreePassed.joinsRepos (h : TreePassed place p b r s s' added links)
    (hstate : CodeState place p graphify_tree r files) : JoinsRepos place s'.current := by
  intro e he hlive
  obtain ⟨hmem, hsource⟩ := mem_code_edges.1 he
  rw [h.rewritten.edges] at hmem
  cases List.mem_append.1 hmem with
  | inr hlink =>
    obtain ⟨entry, -, result, -, draft, -, hdrawn⟩ := h.rewritten.links_sound e hlink
    obtain ⟨d, -, a, ha, hwritten, hfrom⟩ := hdrawn.from_end
    obtain ⟨d', -, a', ha', hwritten', hto⟩ := hdrawn.to_end
    exact ⟨entry.1, ⟨draft_node d, a, h.showsAs ha hwritten, hfrom⟩, draft_node d', a', h.showsAs ha' hwritten', hto⟩
  | inl hbefore =>
    have hloop := h.collected.turning.loop.current
    have hkept := h.collected.turning.current.1
    have hsame : SameCode place r s.current := (hkept.sameCode hloop).congr rfl rfl rfl
    have hmemartifacts : ∀ a ∈ s.current.artifacts, a ∈ s'.current.artifacts := fun a ha => by
      rw [h.rewritten.artifacts]
      exact List.mem_append_left _ ha
    obtain ⟨repo, ⟨node, a, ha, hfrom⟩, node', a', ha', hto⟩ :=
      hsame.joinsRepos hstate.served.joins e (mem_code_edges.2 ⟨hbefore, hsource⟩) hlive
    exact ⟨repo, ⟨node, a, ha.persist hmemartifacts h.rewritten.persist, hfrom⟩, node', a',
      ha'.persist hmemartifacts h.rewritten.persist, hto⟩

/-- What a completed build leaves of the rewritten code graph is what its pass has added. -/
theorem TreePassed.codeRestricts (h : TreePassed place p b r s s' added links)
    (hstate : CodeState place p graphify_tree r files) (hinj : Function.Injective p.gen_random_uuid)
    (hplaced : ∀ f ∈ b.listing.map p.fetch, Placed place f) (hok : TreeFollowed p r b)
    (hdone : (run p cached_generation r b).finalized.isSome = true) :
    CodeRestricts place (· ∈ added) s'.current (next p cached_generation r b) := by
  have hplacedturns : ∀ f ∈ b.turns p, Placed place f := fun f hf => hplaced f (mem_listing_of_mem_turns hf)
  have hcompletes := completes_run hstate.wellFormed hinj hdone
  have hrename := hok.noCodeRename (rowsPlaced_run hstate.wellFormed hinj hstate.placed hplacedturns)
  rw [h.sources] at hcompletes hrename
  have hclosed : CodeGraphClosed place s'.commit.current := by
    intro e he hlive
    obtain ⟨⟨a, ha, hfrom⟩, a', ha', hto⟩ := (h.joinsRepos hstate).closed e he hlive
    exact ⟨⟨a, ⟨ha.mem, ha.live, ha.not_alias, ha.home⟩, hfrom⟩, a', ⟨ha'.mem, ha'.live, ha'.not_alias, ha'.home⟩, hto⟩
  have hwf := h.rewritten.wellFormed.of_sameCore (sameCore_commit s'.current)
  have hrestricts : CodeRestricts place (Spared s'.commit r.now) s'.current (AgenticKb.next p cached_generation r b) :=
    (hcompletes.codeRestricts hwf hclosed hrename).congr rfl rfl rfl
  exact hrestricts.imp fun a ha => h.spared_iff hstate hinj hplaced hok ha

/-- The pass has gone over every repo with a listed file. -/
theorem TreePassed.repo_of_file (h : TreePassed place p b r s s' added links) {repo : String}
    {file : String × String} (hfile : file ∈ tree_of p b repo) :
    ∃ entry ∈ units_by_repo s.code_units, entry.1 = repo := by
  obtain ⟨f, hf, hplace, -⟩ := mem_tree_of.1 hfile
  have hunit : code_unit (start_run p r b.kb_version) f ∈ s.code_units := by
    rw [h.collected.code_units]
    exact List.mem_map_of_mem hf
  obtain ⟨entry, hentry, hmem⟩ := exists_units_by_repo hunit
  exact ⟨entry, hentry, (mem_units_by_repo hentry _ hmem).2.symm.trans (congrArg Prod.fst hplace)⟩

/-- The answer the pass has taken for a repo is the one for its listed files. -/
theorem TreePassed.answer_eq (h : TreePassed place p b r s s' added links) {entry : String × List CodeUnit}
    (hentry : entry ∈ units_by_repo s.code_units) {result : GraphifyResult} (hanswered : Answered b entry.2 result) :
    b.graphify_tree (tree_of p b entry.1) = some result := by
  rw [← h.collected.files_eq hentry]
  exact hanswered.answer

/-- An added artifact shows as one of the drafts of its repo. -/
theorem TreePassed.draft_of_shows (h : TreePassed place p b r s s' added links) (ha : a ∈ added) {repo : String}
    {node : CodeNode} (hshows : ShowsAs place s'.current repo node a) {result : GraphifyResult}
    (hresult : b.graphify_tree (tree_of p b repo) = some result) : node ∈ drafted_nodes result := by
  obtain ⟨entry, hentry, -, result', hanswered, draft, hdraft, hwritten⟩ := h.rewritten.sound a ha
  obtain ⟨rfl, rfl⟩ := hshows.unique (h.showsAs ha hwritten) h.rewritten.wellFormed
  rw [h.answer_eq hentry hanswered] at hresult
  exact Option.some.inj hresult ▸ List.mem_map_of_mem hdraft

/-- An edge between added artifacts was drawn in this build. -/
theorem TreePassed.link_of_links (h : TreePassed place p b r s s' added links)
    (hstate : CodeState place p graphify_tree r files) {repo : String} {link : CodeLink} {e : KnowledgeEdge}
    (hlink : LinksAs place s'.current repo link e)
    (hadded : ∀ a, LiveCode place s'.current a → touches [a.artifact_id] e = true → a ∈ added)
    {result : GraphifyResult} (hresult : b.graphify_tree (tree_of p b repo) = some result) :
    link ∈ drafted_links result := by
  have hwf := h.rewritten.wellFormed
  obtain ⟨hmem, hsource⟩ := mem_code_edges.1 hlink.mem
  obtain ⟨node, a, ha, hfrom, hnode⟩ := hlink.from_end
  obtain ⟨node', a', ha', hto, hnode'⟩ := hlink.to_end
  have hin : a ∈ added := hadded a ha.code (touches_singleton.2 (.inl hfrom))
  rw [h.rewritten.edges] at hmem
  have hdrawn : e ∈ links := by
    refine (List.mem_append.1 hmem).resolve_left fun hbefore => ?_
    -- an edge from before joins artifacts from before
    have hold : e ∈ code_edges r := by
      have hedges : code_edges s.current = code_edges r := h.collected.turning.current.1.edges
      exact hedges ▸ mem_code_edges.2 ⟨hbefore, hsource⟩
    obtain ⟨_, ⟨_, a₀, ha₀, hfrom₀⟩, -⟩ := hstate.served.joins e hold hlink.live
    obtain ⟨prose, hprose, -⟩ := h.collected.turning.current.1.artifacts
    have hmem₀ : a₀ ∈ s'.current.artifacts := by
      rw [h.rewritten.artifacts, hprose]
      exact List.mem_append_left _ (List.mem_append_left _ ha₀.code.mem)
    obtain rfl := hwf.artifact_eq hmem₀ ha.code.mem (hfrom₀.trans hfrom.symm)
    obtain ⟨entry, -, -, _, -, _, -, hwritten⟩ := h.rewritten.sound a₀ hin
    have hnew := hwritten.written.introduced.1
    have hstamp := (hstate.wellFormed.artifacts_stamped a₀ ha₀.code.mem).1
    omega
  obtain ⟨entry, hentry, result', hanswered, draft, hdraft, hdrawn⟩ := h.rewritten.links_sound e hdrawn
  obtain ⟨d, hd, a₁, ha₁, hwritten, hid⟩ := hdrawn.from_end
  obtain ⟨d', hd', a₁', ha₁', hwritten', hid'⟩ := hdrawn.to_end
  have hshows := h.showsAs ha₁ hwritten
  have hshows' := h.showsAs ha₁' hwritten'
  obtain rfl := hwf.artifact_eq hshows.code.mem ha.code.mem (hid.trans hfrom.symm)
  obtain rfl := hwf.artifact_eq hshows'.code.mem ha'.code.mem (hid'.trans hto.symm)
  obtain ⟨rfl, rfl⟩ := ha.unique hshows hwf
  obtain ⟨-, rfl⟩ := ha'.unique hshows' hwf
  rw [h.answer_eq hentry hanswered] at hresult
  obtain rfl := Option.some.inj hresult
  refine List.mem_map.2 ⟨draft, hdraft, ?_⟩
  obtain ⟨from_end, to_end, edge_type, confidence⟩ := link
  rw [CodeLink.mk.injEq, hd, hd']
  exact ⟨hnode.symm, hnode'.symm, (hlink.edge_type.trans hdrawn.edge_type).symm,
    (hlink.confidence.trans hdrawn.confidence).symm⟩

/-- A drawn edge joins added artifacts of its repo. -/
theorem TreePassed.linksAs_of_drawn (h : TreePassed place p b r s s' added links) {n : Nat} {repo : String}
    {result : GraphifyResult} {draft : CodeEdgeDraft} {e : KnowledgeEdge} (he : e ∈ links)
    (hdrawn : LinkDrawn place n s'.current repo result added draft e) :
    LinksAs place s'.current repo ⟨(draft_of result.artifacts draft.from_key).map draft_node,
        (draft_of result.artifacts draft.to_key).map draft_node, draft.edge_type.edge_type, some draft.confidence⟩ e ∧
      ∀ a, LiveCode place s'.current a → touches [a.artifact_id] e = true → a ∈ added := by
  have hwf := h.rewritten.wellFormed
  obtain ⟨d, hd, a, ha, hwritten, hfrom⟩ := hdrawn.from_end
  obtain ⟨d', hd', a', ha', hwritten', hto⟩ := hdrawn.to_end
  have hshows := h.showsAs ha hwritten
  have hshows' := h.showsAs ha' hwritten'
  refine ⟨⟨mem_code_edges.2 ⟨?_, hdrawn.source⟩, hdrawn.introduced.2, ⟨_, a, hshows, hfrom, by rw [hd]; rfl⟩,
    ⟨_, a', hshows', hto, by rw [hd']; rfl⟩, hdrawn.edge_type.symm, hdrawn.confidence.symm⟩, fun other hother htouches => ?_⟩
  · rw [h.rewritten.edges]
    exact List.mem_append_right _ he
  · cases touches_singleton.1 htouches with
    | inl hid => exact hwf.artifact_eq hother.mem hshows.code.mem (hid.trans hfrom.symm) ▸ ha
    | inr hid => exact hwf.artifact_eq hother.mem hshows'.code.mem (hid.trans hto.symm) ▸ ha'

/-- After the build the code graph of every repo is the extractor's answer for its listed files. -/
theorem TreePassed.servesGraph (h : TreePassed place p b r s s' added links)
    (hstate : CodeState place p graphify_tree r files) (hextractor : TreeExtractor b.graphify_tree)
    (hinj : Function.Injective p.gen_random_uuid) (hplaced : ∀ f ∈ b.listing.map p.fetch, Placed place f)
    (hok : TreeFollowed p r b) (hdone : (run p cached_generation r b).finalized.isSome = true) {repo : String}
    {result : GraphifyResult} (hresult : b.graphify_tree (tree_of p b repo) = some result) :
    ServesGraph (next p cached_generation r b) repo result := by
  have hrestricts := h.codeRestricts hstate hinj hplaced hok hdone
  have hplacedturns : ∀ f ∈ b.turns p, Placed place f := fun f hf => hplaced f (mem_listing_of_mem_turns hf)
  have hwf := (wellFormed_next (b := b) hstate.wellFormed hinj).1
  have hrows := rowsPlaced_next hstate.wellFormed hinj hstate.placed hplacedturns
  have hanswered : ∀ entry ∈ units_by_repo s.code_units, entry.1 = repo → Answered b entry.2 result := by
    rintro entry hentry rfl
    exact hextractor.answered hok.split (h.collected.files_eq hentry) hresult
  have hentry : ∀ draft ∈ result.artifacts, ∃ entry ∈ units_by_repo s.code_units, entry.1 = repo := by
    intro draft hdraft
    obtain ⟨file, hfile, -⟩ := hextractor.keys _ _ hresult draft hdraft
    exact h.repo_of_file hfile
  constructor
  · intro node
    rw [mem_code_nodes hwf hrows]
    constructor
    · rintro ⟨a', ha'⟩
      obtain ⟨a, ha, hadded, -⟩ := hrestricts.shows_from ha'
      exact h.draft_of_shows hadded ha hresult
    · intro hnode
      obtain ⟨draft, hdraft, rfl⟩ := List.mem_map.1 hnode
      obtain ⟨entry, hmem, rfl⟩ := hentry draft hdraft
      obtain ⟨a, ha, hwritten⟩ := h.rewritten.complete entry hmem result (hanswered entry hmem rfl) draft hdraft
      obtain ⟨a', ha', -⟩ := hrestricts.shows_to (h.showsAs ha hwritten) ha
      exact ⟨a', ha'⟩
  · intro link
    rw [mem_code_links hwf hrows (hrestricts.joinsRepos (h.joinsRepos hstate))]
    constructor
    · rintro ⟨e, he⟩
      obtain ⟨hlink, hadded⟩ := hrestricts.links_iff.1 he
      exact h.link_of_links hstate hlink hadded hresult
    · intro hlink
      obtain ⟨draft, hdraft, rfl⟩ := List.mem_map.1 hlink
      obtain ⟨⟨d, hd, -⟩, -⟩ := hextractor.ends _ _ hresult draft hdraft
      obtain ⟨entry, hmem, rfl⟩ := hentry d hd
      obtain ⟨e, he, hdrawn⟩ := h.rewritten.links_complete entry hmem result (hanswered entry hmem rfl) draft hdraft
      exact ⟨e, hrestricts.links_iff.2 (h.linksAs_of_drawn he hdrawn)⟩

/-- A completed build that rewrites the code graph serves its tree. -/
theorem TreePassed.treeServed (h : TreePassed place p b r s s' added links)
    (hstate : CodeState place p graphify_tree r files) (hextractor : TreeExtractor b.graphify_tree)
    (hinj : Function.Injective p.gen_random_uuid) (hplaced : ∀ f ∈ b.listing.map p.fetch, Placed place f)
    (hok : TreeFollowed p r b) (hdone : (run p cached_generation r b).finalized.isSome = true) :
    TreeServed place p b.graphify_tree (next p cached_generation r b) (tree_of p b) := by
  have hrestricts := h.codeRestricts hstate hinj hplaced hok hdone
  have hcompletes := completes_run hstate.wellFormed hinj hdone
  rw [h.sources] at hcompletes
  have hwf := (wellFormed_next (b := b) hstate.wellFormed hinj).1
  have hrecorded := fun f hf => h.recorded hstate.wellFormed hplaced hok (f := f) hf
  -- the row of a listed file outlasts the sweep
  have hstays : ∀ f ∈ code_files p b, ∃ row ∈ (next p cached_generation r b).source_items, row.key = f.key ∧
      row.content_hash = f.content_hash ∧ row.is_deleted = false := by
    intro f hf
    obtain ⟨row, hrow, hsame, hseen, -, hhash, hlive⟩ := hrecorded f hf
    obtain ⟨row', hrow', hk⟩ := hcompletes.source_items.successor hrow
    rw [hk.eq_of_not_mem fun hgone => not_seen_of_mem_vanished (vanished_of_mem_tombstoned hgone) hseen] at hrow'
    exact ⟨row, hrow', same_source_iff.1 hsame, hhash, hlive⟩
  have hlisted : ∀ row ∈ (next p cached_generation r b).source_items, CodeKey place row.key → row.is_deleted = false →
      ∃ f ∈ code_files p b, f.key = row.key := by
    intro row hrow hkey hlive
    by_contra hnone
    have hunlisted : ∀ f ∈ code_files p b, f.key ≠ row.key := fun f hf hsame => hnone ⟨f, hf, hsame⟩
    obtain ⟨row₁, hrow₁, hk⟩ := (hcompletes.source_items.origin hrow).resolve_right False.elim
    obtain ⟨hlive₁, hstaysrow⟩ := hk.live_iff.1 hlive
    obtain rfl := hk.eq_of_not_mem hstaysrow
    cases h.rewritten.origin row hrow₁ with
    | inr hadvanced =>
      obtain ⟨unit, hunit, -, hsame, -⟩ := hadvanced
      rw [h.collected.code_units] at hunit
      obtain ⟨f, hf, rfl⟩ := List.mem_map.1 hunit
      exact hunlisted f hf (same_source_iff.1 hsame).symm
    | inl htouched =>
      obtain ⟨row₂, hrow₂, hk₂⟩ := htouched
      obtain ⟨row₀, hrow₀, hk₀⟩ := h.collected.turning.current.1.rows_from row₂ hrow₂ (hk₂.2.1 ▸ hkey)
      have htouch := hk₀.trans hk₂
      obtain ⟨-, hgone⟩ := hstate.vanished_of_unlisted hinj hplaced hrow₀ (htouch.2.1 ▸ hkey)
        (htouch.2.2.2.symm.trans hlive₁) fun f hf => htouch.2.1 ▸ hunlisted f hf
      rw [h.sources, ← htouch.1] at hgone
      exact hstaysrow (mem_tombstoned_of_vanished hgone)
  refine ⟨fun repo file hfile file' hfile' hpath => ?_, fun row hrow hkey hlive => ?_, fun repo file hfile => ?_,
    fun a' ha' row hrow hid => ?_, hrestricts.joinsRepos (h.joinsRepos hstate),
    fun repo result hresult => h.servesGraph hstate hextractor hinj hplaced hok hdone hresult⟩
  · obtain ⟨f, hf, hplace, htext⟩ := mem_tree_of.1 hfile
    obtain ⟨f', hf', hplace', htext'⟩ := mem_tree_of.1 hfile'
    have hsame := hok.one f hf f' hf' (hplace.trans (hpath ▸ hplace'.symm))
    exact Prod.ext hpath (htext.symm.trans (hsame.trans htext'))
  · obtain ⟨f, hf, hfkey⟩ := hlisted row hrow hkey hlive
    obtain ⟨row', hrow', hkey', hhash, -⟩ := hstays f hf
    obtain ⟨-, hplace, hfhash⟩ := mem_code_files hplaced hf
    rw [hwf.source_eq_of_key hrow' hrow (hkey'.trans hfkey)] at hhash
    refine ⟨(f.place.2, f.text), mem_tree_of.2 ⟨f, hf, ?_, rfl⟩, ?_, hhash.trans hfhash⟩
    · rw [← hfkey, hplace]
    · rw [← hfkey, hplace]
  · obtain ⟨f, hf, hplace, htext⟩ := mem_tree_of.1 hfile
    obtain ⟨hkey, hfplace, hfhash⟩ := mem_code_files hplaced hf
    obtain ⟨row, hrow, hrowkey, hhash, hlive⟩ := hstays f hf
    exact ⟨row, hrow, hrowkey ▸ hkey, hlive, by rw [hrowkey, hfplace, hplace], by rw [hhash, hfhash, htext]⟩
  · obtain ⟨a, ha, hadded, hsame⟩ := hrestricts.artifacts_from a' ha'
    obtain ⟨entry, hentry, ⟨unit, hunit, row₁, hrow₁, hid₁, hkey₁⟩, -⟩ := h.rewritten.sound a hadded
    obtain ⟨hmem, -⟩ := mem_units_by_repo hentry unit hunit
    rw [h.collected.code_units] at hmem
    obtain ⟨f, hf, rfl⟩ := List.mem_map.1 hmem
    obtain ⟨row', hrow', hkey', -, hlive⟩ := hstays f hf
    obtain ⟨row₂, hrow₂, hk⟩ := hcompletes.source_items.successor hrow₁
    have hid₂ : row₂.source_id = row.source_id := by
      rw [show row₂ = _ from hk]
      exact hid₁.trans (hsame.source_id.symm.trans hid.symm)
    have hkey₂ : row₂.key = f.key := by
      rw [show row₂ = _ from hk]
      exact hkey₁
    obtain rfl := hwf.source_eq hrow₂ hrow hid₂
    rwa [hwf.source_eq_of_key hrow' hrow₂ (hkey'.trans hkey₂.symm)] at hlive

end Passed

/-- A build that fails before it has committed its code graph leaves the one it has found. -/
theorem CodeState.treeServed_uncommitted (h : CodeState place p graphify_tree r files)
    (hinj : Function.Injective p.gen_random_uuid) (hplaced : ∀ f ∈ b.listing.map p.fetch, Placed place f)
    (hfailed : (run p cached_generation r b).finalized.isSome = false) (hok : CodeUncommitted p r b) :
    TreeServed place p graphify_tree (next p cached_generation r b) files := by
  have hplacedturns : ∀ f ∈ b.turns p, Placed place f := fun f hf => hplaced f (mem_listing_of_mem_turns hf)
  have hstart : WellFormed p (start_run p r b.kb_version) := wellFormed_start_run h.wellFormed
  have hcollected := codeCollected_source_loop hstart hinj hplacedturns
  cases run_end p r b with
  | completed passes hsources hpasses => simp [hpasses] at hfailed
  | failed hsources hpasses hcore =>
    have hloop : (run p cached_generation r b).sources.committed =
        (source_loop p b (start_run p r b.kb_version)).committed := by
      generalize (run p cached_generation r b).sources = s at hsources
      cases hsources with
      | inl herror => rw [eq_of_process_sources_error herror]
      | inr hdone =>
        cases hok with
        | inl herror => simp [hdone, Except.isOk, Except.toBool] at herror
        | inr hunchanged =>
          have hcode : (source_loop p b (start_run p r b.kb_version)).any_code_changed = false := by
            rw [hcollected.any_code_changed, hcollected.code_units, List.any_eq_false]
            intro unit hunit
            obtain ⟨f, hf, rfl⟩ := List.mem_map.1 hunit
            obtain ⟨hmem, hfile⟩ := List.mem_filter.1 hf
            have hsame := hunchanged f (List.mem_filter.2 ⟨mem_listing_of_mem_turns hmem, hfile⟩)
            simp [code_unit, is_unchanged_start_run, hsame]
          exact committed_of_unchanged hcollected.turning.loop.current hdone hcode
    have hkept : CodeKept place r (next p cached_generation r b) := by
      have hcommitted := hcollected.turning.committed.1.touched (.of_sameCore (hloop ▸ hcore))
      exact ⟨hcommitted.rows_to, hcommitted.rows_from, hcommitted.artifacts, hcommitted.edges⟩
    have hwf := (wellFormed_next (b := b) h.wellFormed hinj).1
    exact h.served.of_same (hkept.sameCode hwf) h.wellFormed hwf h.placed
      (rowsPlaced_next h.wellFormed hinj h.placed hplacedturns) (fun row hrow hkey _ => hkept.rows_from row hrow hkey)
      fun row hrow hkey _ => hkept.rows_to row hrow hkey

/-- The code state goes from build to build. -/
theorem CodeState.next (h : CodeState place p b.graphify_tree r files) (hextractor : TreeExtractor b.graphify_tree)
    (hinj : Function.Injective p.gen_random_uuid) (hcontent : Function.Injective p.content_hash)
    (hplaced : ∀ f ∈ b.listing.map p.fetch, Placed place f) (hok : CodeFollowed p r b) :
    ∃ files', CodeState place p b.graphify_tree (next p cached_generation r b) files' ∧
      ((run p cached_generation r b).finalized.isSome = true → files' = tree_of p b) := by
  have hplacedturns : ∀ f ∈ b.turns p, Placed place f := fun f hf => hplaced f (mem_listing_of_mem_turns hf)
  have hwf := (wellFormed_next (b := b) h.wellFormed hinj).1
  have hrecorded := recordedBefore_next (b := b) h.wellFormed hinj h.recorded
  have hrows := rowsPlaced_next h.wellFormed hinj h.placed hplacedturns
  cases hdone : (run p cached_generation r b).finalized.isSome with
  | false =>
    exact ⟨files, ⟨hwf, hrecorded, hrows, h.treeServed_uncommitted hinj hplaced hdone (hok.2 hdone)⟩,
      fun hfalse => absurd hfalse Bool.false_ne_true⟩
  | true =>
    refine ⟨tree_of p b, ⟨hwf, hrecorded, hrows, ?_⟩, fun _ => rfl⟩
    cases hcode : (source_loop p b (start_run p r b.kb_version)).any_code_changed with
    | false => exact h.treeServed_unchanged hextractor hinj hcontent hplaced hdone (hok.1 hdone) hcode
    | true =>
      have hsources := sources_of_completed hdone
      have hturns := turns_of_process_sources hsources
      have hstart : WellFormed p (start_run p r b.kb_version) := wellFormed_start_run h.wellFormed
      have hcollected := codeCollected_source_loop hstart hinj hplacedturns
      rw [hturns] at hcollected
      have hanswered : ∀ entry ∈ units_by_repo (source_loop p b (start_run p r b.kb_version)).code_units,
          ∃ result, Answered b entry.2 result := by
        intro entry hentry
        obtain ⟨result, hresult⟩ := hextractor.total (tree_of p b entry.1)
        exact ⟨result, hextractor.answered (hok.1 hdone).split (hcollected.files_eq hentry) hresult⟩
      obtain ⟨s', added, links, heq, hrewritten⟩ :=
        treeRewritten_of_changed hstart hinj hplacedturns hsources hcode hanswered
      have hpassed : TreePassed place p b r (source_loop p b (start_run p r b.kb_version)) s' added links :=
        ⟨heq, hcollected, hrewritten⟩
      exact hpassed.treeServed h hextractor hinj hplaced (hok.1 hdone) hdone

end Steps

section Builds

variable {place : SourceType × String → String × String} {p : Platform}
  {graphify_tree : List (String × String) → Option GraphifyResult}

theorem codeState_empty (hextractor : TreeExtractor graphify_tree) :
    CodeState place p graphify_tree Registry.empty fun _ => [] := by
  have hnone : ∀ {a}, ¬ LiveCode place Registry.empty a := fun h => by simpa [Registry.empty] using h.mem
  refine ⟨wellFormed_empty p, by simp [RecordedBefore, Registry.empty], by simp [RowsPlaced, Registry.empty],
    fun _ => by simp [IsTree], by simp [Registry.empty], by simp, fun a ha => absurd ha hnone,
    by simp [JoinsRepos, code_edges, Registry.empty], fun repo result hresult => ?_⟩
  have hartifacts : result.artifacts = [] := by
    refine List.eq_nil_iff_forall_not_mem.2 fun draft hdraft => ?_
    obtain ⟨file, hfile, -⟩ := hextractor.keys _ _ hresult draft hdraft
    simp at hfile
  have hedges : result.edges = [] := by
    refine List.eq_nil_iff_forall_not_mem.2 fun draft hdraft => ?_
    obtain ⟨⟨d, hd, -⟩, -⟩ := hextractor.ends _ _ hresult draft hdraft
    simp [hartifacts] at hd
  constructor
  · simp [SameMembers, drafted_nodes, hartifacts, code_nodes, live_code_artifacts, code_artifacts, Registry.joined,
      Registry.empty]
  · simp [SameMembers, drafted_links, hedges, code_links, code_edges, Registry.empty]

/-- Over builds with one extractor, a function of the file tree, and sources whose addresses name their repo and path:
when every build follows its code files, the code graph after each completed one is that of the listed tree. -/
theorem code_graph_current (hextractor : TreeExtractor graphify_tree) (hinj : Function.Injective p.gen_random_uuid)
    (hcontent : Function.Injective p.content_hash) (builds : List Build)
    (hbuilds : ∀ b ∈ builds, b.graphify_tree = graphify_tree ∧ ∀ f ∈ b.listing.map p.fetch, Placed place f)
    (hfollowed : Along (next p cached_generation) (CodeFollowed p) Registry.empty builds) :
    Along (next p cached_generation) (CodeGraphCurrent p) Registry.empty builds := by
  refine Along.imp_of_invariant (I := fun r => ∃ files, CodeState place p graphify_tree r files) ?_ ?_
    ⟨_, codeState_empty hextractor⟩ hfollowed
  · rintro r b hb ⟨files, hstate⟩ hok
    obtain ⟨rfl, hplaced⟩ := hbuilds b hb
    obtain ⟨files', hnext, -⟩ := hstate.next hextractor hinj hcontent hplaced hok
    exact ⟨files', hnext⟩
  · rintro r b hb ⟨files, hstate⟩ hok hdone repo result hresult
    obtain ⟨rfl, hplaced⟩ := hbuilds b hb
    obtain ⟨files', hnext, hfiles⟩ := hstate.next hextractor hinj hcontent hplaced hok
    obtain rfl := hfiles hdone
    exact hnext.served.serves repo result hresult

/-- An extractor of calls: `main` calls `f`, and the call is dropped when both `a.py` and `b.py` define one. -/
def calls_of_tree (files : List (String × String)) : Option GraphifyResult :=
  let symbols := [("main.py", "main"), ("a.py", "f"), ("b.py", "f")].filter fun symbol => files.any (·.1 == symbol.1)
  some
    { artifacts := symbols.map fun symbol =>
        { key := symbol_key symbol.1 symbol.2, artifact_type := .code_symbol, title := symbol.2 }
      edges := match symbols with
        | [("main.py", main), (path, f)] => [⟨symbol_key "main.py" main, symbol_key path f, .calls, 9 / 10⟩]
        | _ => [] }

theorem treeExtractor_calls_of_tree : TreeExtractor calls_of_tree where
  total files := ⟨_, rfl⟩
  tree files files' _ h := by
    have hany : ∀ path, files.any (·.1 == path) = files'.any (·.1 == path) := fun path => by
      rw [Bool.eq_iff_iff, List.any_eq_true, List.any_eq_true]
      exact exists_congr fun file => and_congr_left fun _ => h file
    simp only [calls_of_tree, hany]
  keys files result h draft hdraft := by
    obtain rfl := Option.some.inj h
    obtain ⟨symbol, hsymbol, rfl⟩ := List.mem_map.1 hdraft
    obtain ⟨file, hfile, hpath⟩ := List.any_eq_true.1 (List.mem_filter.1 hsymbol).2
    exact ⟨file, hfile, .inr ⟨symbol.2, by rw [beq_iff_eq.1 hpath]⟩⟩
  ends files result h draft hdraft := by
    obtain rfl := Option.some.inj h
    dsimp only at hdraft ⊢
    split at hdraft
    · rename_i main path f hsymbols
      rw [List.mem_singleton.1 hdraft, hsymbols]
      simp
    · simp at hdraft

/-- A build over the code files of one repo. -/
def tree_build (files : List (String × String)) : Build where
  kb_version := "v"
  listing := files.map fun file =>
    ({ source_type := .github_code, source_uri := "github://acme/app/" ++ file.1, source_version := "1"
       repo := some "acme/app", path := some file.1 }, file.2)
  graphify_tree := calls_of_tree

/-- The place an address of that repo names. -/
def one_repo (key : SourceType × String) : String × String := ("acme/app", strip_leading key.2 "github://acme/app/")

theorem placed_tree_build (files : List (String × String)) :
    ∀ f ∈ (tree_build files).listing.map Platform.plain.fetch, Placed one_repo f := by
  intro f hf
  simp only [tree_build, List.map_map, List.mem_map, Function.comp_apply] at hf
  obtain ⟨file, -, rfl⟩ := hf
  simp [Placed, NormalizedContent.place, NormalizedContent.key, one_repo, Platform.fetch]

/-- One of the two definitions goes, and `main` is edited as well: the tree is extracted again. -/
theorem code_graph_current_edited_caller :
    Along (next .plain cached_generation) (CodeGraphCurrent .plain) Registry.empty
      [tree_build [("main.py", "f()"), ("a.py", "A"), ("b.py", "B")], tree_build [("main.py", "f(1)"), ("a.py", "A")]] :=
  have hbuilds : ∀ b ∈ [tree_build [("main.py", "f()"), ("a.py", "A"), ("b.py", "B")],
      tree_build [("main.py", "f(1)"), ("a.py", "A")]],
      b.graphify_tree = calls_of_tree ∧ ∀ f ∈ b.listing.map Platform.plain.fetch, Placed one_repo f := by
    simp only [List.mem_cons, List.not_mem_nil, or_false, forall_eq_or_imp, forall_eq]
    exact ⟨⟨rfl, placed_tree_build _⟩, rfl, placed_tree_build _⟩
  code_graph_current treeExtractor_calls_of_tree (fun _ _ h => h) (fun _ _ h => h) _ hbuilds (by decide +kernel)

/-- One of the two definitions goes and nothing else changes: the tree is not extracted again, and the call that now
resolves stays missing. -/
theorem call_missing_after_removal :
    TreeExtractor calls_of_tree ∧
      AllComplete .plain [tree_build [("main.py", "f()"), ("a.py", "A"), ("b.py", "B")],
        tree_build [("main.py", "f()"), ("a.py", "A")]] ∧
      ¬ Along (next .plain cached_generation) (CodeGraphCurrent .plain) Registry.empty
        [tree_build [("main.py", "f()"), ("a.py", "A"), ("b.py", "B")], tree_build [("main.py", "f()"), ("a.py", "A")]] := by
  refine ⟨treeExtractor_calls_of_tree, by decide +kernel, fun hcurrent => ?_⟩
  have hserves := hcurrent.2.1 (by decide +kernel) "acme/app" _ rfl
  revert hserves
  decide +kernel

end Builds

end AgenticKb

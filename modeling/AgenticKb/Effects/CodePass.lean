import AgenticKb.Effects.CodeRows
import AgenticKb.Effects.CodeTree

open AgenticKb.Lib

namespace AgenticKb

/-! The whole-tree pass, repo after repo: every draft the extractor answers for a repo has its artifact, under the
row of its file, and every edge of the answer is drawn between two of them. -/

/-- The artifact of a draft of a repo, under the row of the draft's file. -/
structure DraftWritten (place : SourceType × String → String × String) (n : Nat) (r : Registry) (repo : String)
    (draft : CodeArtifactDraft) (a : KnowledgeArtifact) : Prop where
  written : draft.Written n a
  home : KeyedBy (fun key => CodeKey place key ∧ place key = (repo, path_of_code_key draft.key)) r a.source_id

/-- An edge between the artifacts of the drafts that its keys stand for. -/
structure LinkDrawn (place : SourceType × String → String × String) (n : Nat) (r : Registry) (repo : String)
    (result : GraphifyResult) (added : List KnowledgeArtifact) (draft : CodeEdgeDraft) (e : KnowledgeEdge) :
    Prop where
  introduced : e.IntroducedBy n
  source : e.source = some .graphify
  edge_type : e.edge_type = draft.edge_type.edge_type
  confidence : e.confidence = some draft.confidence
  from_end : ∃ d, draft_of result.artifacts draft.from_key = some d ∧
    ∃ a ∈ added, DraftWritten place n r repo d a ∧ a.artifact_id = e.from_artifact_id
  to_end : ∃ d, draft_of result.artifacts draft.to_key = some d ∧
    ∃ a ∈ added, DraftWritten place n r repo d a ∧ a.artifact_id = e.to_artifact_id

/-- The extractor answers for the files of a repo, with drafts of these files and edges between its drafts. -/
structure Answered (b : Build) (units : List CodeUnit) (result : GraphifyResult) : Prop where
  answer : b.graphify_tree (units.map fun unit => (unit.path, unit.fetched.text)) = some result
  paths : ∀ draft ∈ result.artifacts, ∃ unit ∈ units, unit.path = path_of_code_key draft.key
  ends : ∀ draft ∈ result.edges, (∃ d ∈ result.artifacts, d.key = draft.from_key) ∧
    ∃ d ∈ result.artifacts, d.key = draft.to_key

/-- The pass has come from `s` to `s'` over some of the repos. -/
structure TreeRewritten (place : SourceType × String → String × String) (p : Platform) (b : Build) (n : Nat)
    (units : List CodeUnit) (s s' : SourceLoop) (done : List (String × List CodeUnit))
    (added : List KnowledgeArtifact) (links : List KnowledgeEdge) : Prop where
  wellFormed : WellFormed p s'.current
  build_seq : s'.current.build_seq = n
  rows : RowsExist s'.current units
  persist : ∀ row ∈ s.current.source_items, ∃ row' ∈ s'.current.source_items,
    row'.source_id = row.source_id ∧ row'.key = row.key
  origin : ∀ row' ∈ s'.current.source_items,
    (∃ row ∈ s.current.source_items, Touched row row') ∨ AdvancedTo units row'
  seen : ∀ id ∈ s.seen, id ∈ s'.seen
  changed : ∀ id ∈ s.changed, id ∈ s'.changed
  /-- The row of every file is seen, counts as changed, and is advanced if the file has changed. -/
  recorded : ∀ entry ∈ done, ∀ unit ∈ entry.2, ∃ row ∈ s'.current.source_items,
    same_source unit.fetched row = true ∧ row.source_id ∈ s'.seen ∧ row.source_id ∈ s'.changed ∧
      (unit.changed = true → AdvancedTo units row)
  artifacts : s'.current.artifacts = s.current.artifacts ++ added
  edges : s'.current.edges = s.current.edges ++ links
  sound : ∀ a ∈ added, ∃ entry ∈ done, (∃ unit ∈ entry.2, KeyedBy (· = unit.fetched.key) s'.current a.source_id) ∧
    ∃ result, Answered b entry.2 result ∧
      ∃ draft ∈ result.artifacts, DraftWritten place n s'.current entry.1 draft a
  complete : ∀ entry ∈ done, ∀ result, Answered b entry.2 result → ∀ draft ∈ result.artifacts,
    ∃ a ∈ added, DraftWritten place n s'.current entry.1 draft a
  links_sound : ∀ e ∈ links, ∃ entry ∈ done, ∃ result, Answered b entry.2 result ∧
    ∃ draft ∈ result.edges, LinkDrawn place n s'.current entry.1 result added draft e
  links_complete : ∀ entry ∈ done, ∀ result, Answered b entry.2 result → ∀ draft ∈ result.edges,
    ∃ e ∈ links, LinkDrawn place n s'.current entry.1 result added draft e

section Persist

variable {place : SourceType × String → String × String} {n : Nat} {r r' : Registry} {repo : String}

theorem DraftWritten.persist {draft : CodeArtifactDraft} {a : KnowledgeArtifact}
    (h : DraftWritten place n r repo draft a)
    (hpersist : ∀ row ∈ r.source_items, ∃ row' ∈ r'.source_items, row'.source_id = row.source_id ∧ row'.key = row.key) :
    DraftWritten place n r' repo draft a := ⟨h.written, h.home.persist hpersist⟩

theorem LinkDrawn.persist {result : GraphifyResult} {added added' : List KnowledgeArtifact} {draft : CodeEdgeDraft}
    {e : KnowledgeEdge} (h : LinkDrawn place n r repo result added draft e) (hadded : ∀ a ∈ added, a ∈ added')
    (hpersist : ∀ row ∈ r.source_items, ∃ row' ∈ r'.source_items, row'.source_id = row.source_id ∧ row'.key = row.key) :
    LinkDrawn place n r' repo result added' draft e := by
  obtain ⟨d, hd, a, ha, hwritten, hid⟩ := h.from_end
  obtain ⟨d', hd', a', ha', hwritten', hid'⟩ := h.to_end
  exact
    { h with
      from_end := ⟨d, hd, a, hadded a ha, hwritten.persist hpersist, hid⟩
      to_end := ⟨d', hd', a', hadded a' ha', hwritten'.persist hpersist, hid'⟩ }

theorem LinkDrawn.mono {result : GraphifyResult} {added added' : List KnowledgeArtifact} {draft : CodeEdgeDraft}
    {e : KnowledgeEdge} (h : LinkDrawn place n r repo result added draft e) (hadded : ∀ a ∈ added, a ∈ added') :
    LinkDrawn place n r repo result added' draft e :=
  h.persist hadded fun row hrow => ⟨row, hrow, rfl, rfl⟩

theorem AdvancedTo.touched {units : List CodeUnit} {row row' : SourceItem} (h : AdvancedTo units row)
    (htouch : Touched row row') : AdvancedTo units row' := by
  obtain ⟨unit, hunit, hchanged, hsame, hhash, hlive⟩ := h
  rw [same_source_iff] at hsame
  exact ⟨unit, hunit, hchanged, same_source_iff.2 (htouch.2.1.trans hsame), htouch.2.2.1.trans hhash,
    htouch.2.2.2.trans hlive⟩

end Persist

section Pass

variable {place : SourceType × String → String × String} {p : Platform} {b : Build} {n : Nat}
  {units : List CodeUnit} {s mid s' : SourceLoop}

/-- The path of a draft stands for the row of its file. -/
private theorem keyedBy_of_under {r : Registry} {repo_units : List CodeUnit}
    {rows : Registry × Dict String Uuid × List Uuid} (hups : UnitsUpserted p r repo_units rows)
    {draft : CodeArtifactDraft} {a : KnowledgeArtifact}
    (hpath : ∃ unit ∈ repo_units, unit.path = path_of_code_key draft.key)
    (h : WrittenUnder n rows.2.1 (path_of_code_key draft.key) draft a) :
    ∃ unit ∈ repo_units, unit.path = path_of_code_key draft.key ∧ KeyedBy (· = unit.fetched.key) rows.1 a.source_id := by
  obtain ⟨unit, hunit, hname⟩ := hpath
  have hsome : (unit_at repo_units (path_of_code_key draft.key)).isSome = true := by
    rw [unit_at, List.find?_isSome]
    exact ⟨unit, List.mem_reverse.2 hunit, by simp [hname]⟩
  obtain ⟨found, hfound⟩ := Option.isSome_iff_exists.1 hsome
  obtain ⟨row, hrow, hsame, hget⟩ := hups.by_path _ found hfound
  refine ⟨found, List.mem_reverse.1 (List.mem_of_find?_eq_some hfound), by simpa using List.find?_some hfound,
    row, hrow, Option.some.inj (hget.symm.trans h.1), same_source_iff.1 hsame⟩

theorem treeRewritten_nil (hwf : WellFormed p s.current) (hseq : s.current.build_seq = n)
    (hrows : RowsExist s.current units) : TreeRewritten place p b n units s s [] [] [] where
  wellFormed := hwf
  build_seq := hseq
  rows := hrows
  persist := fun row hrow => ⟨row, hrow, rfl, rfl⟩
  origin := fun row hrow => .inl ⟨row, hrow, .refl row⟩
  seen := fun _ hid => hid
  changed := fun _ hid => hid
  recorded := by simp
  artifacts := by simp
  edges := by simp
  sound := by simp
  complete := by simp
  links_sound := by simp
  links_complete := by simp

section Trans

variable {done done' : List (String × List CodeUnit)} {added added' : List KnowledgeArtifact}
  {links links' : List KnowledgeEdge}

/-- A row that the first part of the pass recorded still is after the second. -/
private theorem recorded_trans (h : TreeRewritten place p b n units s mid done added links)
    (h' : TreeRewritten place p b n units mid s' done' added' links') {entry : String × List CodeUnit}
    (hentry : entry ∈ done) {unit : CodeUnit} (hunit : unit ∈ entry.2) :
    ∃ row ∈ s'.current.source_items, same_source unit.fetched row = true ∧ row.source_id ∈ s'.seen ∧
      row.source_id ∈ s'.changed ∧ (unit.changed = true → AdvancedTo units row) := by
  obtain ⟨row, hrow, hsource, hseen, hchanged, hadvanced⟩ := h.recorded entry hentry unit hunit
  obtain ⟨row', hrow', hid, hkey⟩ := h'.persist row hrow
  rw [same_source_iff] at hsource
  refine ⟨row', hrow', same_source_iff.2 (hkey.trans hsource), hid ▸ h'.seen _ hseen, hid ▸ h'.changed _ hchanged, ?_⟩
  intro hnew
  cases h'.origin row' hrow' with
  | inr hlater => exact hlater
  | inl hkept =>
    obtain ⟨row₁, hrow₁, hk⟩ := hkept
    rw [h.wellFormed.source_eq hrow₁ hrow (hk.1.symm.trans hid)] at hk
    exact (hadvanced hnew).touched hk

/-- The pass over some repos goes on over more of them. -/
theorem TreeRewritten.trans (h : TreeRewritten place p b n units s mid done added links)
    (h' : TreeRewritten place p b n units mid s' done' added' links') :
    TreeRewritten place p b n units s s' (done ++ done') (added ++ added') (links ++ links') where
  wellFormed := h'.wellFormed
  build_seq := h'.build_seq
  rows := h'.rows
  persist := by
    intro row hrow
    obtain ⟨row₁, hrow₁, hid₁, hkey₁⟩ := h.persist row hrow
    obtain ⟨row', hrow', hid, hkey⟩ := h'.persist row₁ hrow₁
    exact ⟨row', hrow', hid.trans hid₁, hkey.trans hkey₁⟩
  origin := by
    intro row' hrow'
    cases h'.origin row' hrow' with
    | inr hadvanced => exact .inr hadvanced
    | inl hkept =>
      obtain ⟨row₁, hrow₁, hk₁⟩ := hkept
      cases h.origin row₁ hrow₁ with
      | inr hadvanced => exact .inr (hadvanced.touched hk₁)
      | inl hold =>
        obtain ⟨row, hrow, hk⟩ := hold
        exact .inl ⟨row, hrow, hk.trans hk₁⟩
  seen := fun id hid => h'.seen id (h.seen id hid)
  changed := fun id hid => h'.changed id (h.changed id hid)
  recorded := by
    intro entry hentry unit hunit
    cases List.mem_append.1 hentry with
    | inl hold => exact recorded_trans h h' hold hunit
    | inr hnew => exact h'.recorded entry hnew unit hunit
  artifacts := by rw [h'.artifacts, h.artifacts, List.append_assoc]
  edges := by rw [h'.edges, h.edges, List.append_assoc]
  sound := by
    intro a ha
    cases List.mem_append.1 ha with
    | inl hold =>
      obtain ⟨entry, hentry, ⟨unit, hunit, hrow⟩, result, hanswered, draft, hdraft, hwritten⟩ := h.sound a hold
      exact ⟨entry, List.mem_append_left _ hentry, ⟨unit, hunit, hrow.persist h'.persist⟩, result, hanswered, draft,
        hdraft, hwritten.persist h'.persist⟩
    | inr hnew =>
      obtain ⟨entry, hentry, hrest⟩ := h'.sound a hnew
      exact ⟨entry, List.mem_append_right _ hentry, hrest⟩
  complete := by
    intro entry hentry result hanswered draft hdraft
    cases List.mem_append.1 hentry with
    | inl hold =>
      obtain ⟨a, ha, hwritten⟩ := h.complete entry hold result hanswered draft hdraft
      exact ⟨a, List.mem_append_left _ ha, hwritten.persist h'.persist⟩
    | inr hnew =>
      obtain ⟨a, ha, hwritten⟩ := h'.complete entry hnew result hanswered draft hdraft
      exact ⟨a, List.mem_append_right _ ha, hwritten⟩
  links_sound := by
    intro e he
    cases List.mem_append.1 he with
    | inl hold =>
      obtain ⟨entry, hentry, result, hanswered, draft, hdraft, hdrawn⟩ := h.links_sound e hold
      exact ⟨entry, List.mem_append_left _ hentry, result, hanswered, draft, hdraft,
        hdrawn.persist (fun a ha => List.mem_append_left _ ha) h'.persist⟩
    | inr hnew =>
      obtain ⟨entry, hentry, result, hanswered, draft, hdraft, hdrawn⟩ := h'.links_sound e hnew
      exact ⟨entry, List.mem_append_right _ hentry, result, hanswered, draft, hdraft,
        hdrawn.mono fun a ha => List.mem_append_right _ ha⟩
  links_complete := by
    intro entry hentry result hanswered draft hdraft
    cases List.mem_append.1 hentry with
    | inl hold =>
      obtain ⟨e, he, hdrawn⟩ := h.links_complete entry hold result hanswered draft hdraft
      exact ⟨e, List.mem_append_left _ he, hdrawn.persist (fun a ha => List.mem_append_left _ ha) h'.persist⟩
    | inr hnew =>
      obtain ⟨e, he, hdrawn⟩ := h'.links_complete entry hnew result hanswered draft hdraft
      exact ⟨e, List.mem_append_right _ he, hdrawn.mono fun a ha => List.mem_append_right _ ha⟩

end Trans

section Repo

variable {entry : String × List CodeUnit} {result : GraphifyResult} {added : List KnowledgeArtifact}
  {links : List KnowledgeEdge}

private theorem keyedBy_of_drafted (hups : UnitsUpserted p mid.current entry.2 (upsert_units p mid.current entry.2))
    (hdrafted : RepoDrafted p mid s' entry.2 result added links) (hanswered : Answered b entry.2 result)
    {draft : CodeArtifactDraft} (hdraft : draft ∈ result.artifacts) {a : KnowledgeArtifact}
    (ha : WrittenUnder n (upsert_units p mid.current entry.2).2.1 (path_of_code_key draft.key) draft a) :
    ∃ unit ∈ entry.2, unit.path = path_of_code_key draft.key ∧
      KeyedBy (· = unit.fetched.key) s'.current a.source_id := by
  have hrow := keyedBy_of_under hups (hanswered.paths draft hdraft) ha
  unfold KeyedBy at hrow ⊢
  rwa [hdrafted.rows]

private theorem draftWritten_of_drafted
    (hups : UnitsUpserted p mid.current entry.2 (upsert_units p mid.current entry.2))
    (hdrafted : RepoDrafted p mid s' entry.2 result added links) (hanswered : Answered b entry.2 result)
    (hplaced : ∀ unit ∈ entry.2, CodeKey place unit.fetched.key ∧ place unit.fetched.key = (entry.1, unit.path))
    {draft : CodeArtifactDraft} (hdraft : draft ∈ result.artifacts) {a : KnowledgeArtifact}
    (ha : WrittenUnder n (upsert_units p mid.current entry.2).2.1 (path_of_code_key draft.key) draft a) :
    DraftWritten place n s'.current entry.1 draft a := by
  obtain ⟨unit, hunit, hname, row, hrow, hid, hkey⟩ := keyedBy_of_drafted hups hdrafted hanswered hdraft ha
  refine ⟨ha.2, row, hrow, hid, ?_⟩
  rw [hkey, ← hname]
  exact hplaced unit hunit

private theorem linkDrawn_of_drafted
    (hups : UnitsUpserted p mid.current entry.2 (upsert_units p mid.current entry.2))
    (hdrafted : RepoDrafted p mid s' entry.2 result added links) (hanswered : Answered b entry.2 result)
    (hplaced : ∀ unit ∈ entry.2, CodeKey place unit.fetched.key ∧ place unit.fetched.key = (entry.1, unit.path))
    {draft : CodeEdgeDraft} {e : KnowledgeEdge}
    (he : LinkWritten n (upsert_units p mid.current entry.2).2.1 result added draft e) :
    LinkDrawn place n s'.current entry.1 result added draft e := by
  obtain ⟨d, hd, a, ha, hwritten, hid⟩ := he.from_end
  obtain ⟨d', hd', a', ha', hwritten', hid'⟩ := he.to_end
  have hmem := List.mem_reverse.1 (List.mem_of_find?_eq_some hd)
  have hmem' := List.mem_reverse.1 (List.mem_of_find?_eq_some hd')
  exact
    { introduced := he.introduced
      source := he.source
      edge_type := he.edge_type
      confidence := he.confidence
      from_end := ⟨d, hd, a, ha, draftWritten_of_drafted hups hdrafted hanswered hplaced hmem hwritten, hid⟩
      to_end := ⟨d', hd', a', ha', draftWritten_of_drafted hups hdrafted hanswered hplaced hmem' hwritten', hid'⟩ }

/-- The pass over one repo. -/
theorem treeRewritten_repo (hinj : Function.Injective p.gen_random_uuid) (hwf : WellFormed p mid.current)
    (hseq : mid.current.build_seq = n) (hunits : RowsExist mid.current units) (hsub : ∀ unit ∈ entry.2, unit ∈ units)
    (hplaced : ∀ unit ∈ entry.2, CodeKey place unit.fetched.key ∧ place unit.fetched.key = (entry.1, unit.path))
    (hanswered : Answered b entry.2 result) (hstep : graphify_one_repo p b mid entry = some s') :
    ∃ added links, TreeRewritten place p b n units mid s' [entry] added links := by
  have hrows : RowsExist mid.current entry.2 := fun unit hunit => hunits unit (hsub unit hunit)
  have hups := upsert_units_spec hwf hinj entry.2 hrows
  obtain ⟨added, links, hdrafted⟩ := repoDrafted_graphify_one_repo hwf hinj hrows hstep hanswered.answer
    hanswered.paths hanswered.ends
  have hwritten : WellFormed p s'.current ∧ s'.current.build_seq = mid.current.build_seq := by
    cases graphify_one_repo_spec hwf hinj hrows hstep with
    | inl hfailed =>
      rw [hanswered.answer] at hfailed
      cases hfailed.1
    | inr hdone =>
      obtain ⟨_, _, _, _, -, hw⟩ := hdone
      exact ⟨hw.wellFormed, hw.build_seq⟩
  -- the extractor has one answer for the repo
  have hsame : ∀ result', Answered b entry.2 result' → result' = result := fun result' hother =>
    Option.some.inj (hother.answer.symm.trans hanswered.answer)
  have hpersist : ∀ row ∈ mid.current.source_items, ∃ row' ∈ s'.current.source_items,
      row'.source_id = row.source_id ∧ row'.key = row.key := by
    rw [hdrafted.rows]
    exact hups.persist
  subst hseq
  refine ⟨added, links, ?_⟩
  constructor
  case wellFormed => exact hwritten.1
  case build_seq => exact hwritten.2
  case rows =>
    intro unit hunit hunchanged
    obtain ⟨row, hrow, hsource⟩ := hunits unit hunit hunchanged
    obtain ⟨row', hrow', -, hkey⟩ := hpersist row hrow
    rw [same_source_iff] at hsource
    exact ⟨row', hrow', same_source_iff.2 (hkey.trans hsource)⟩
  case persist => exact hpersist
  case origin =>
    intro row' hrow'
    rw [hdrafted.rows] at hrow'
    exact (hups.origin row' hrow').imp_right fun hadvanced => hadvanced.mono hsub
  case seen => exact fun id hid => hdrafted.seen ▸ List.mem_append_left _ hid
  case changed => exact fun id hid => hdrafted.changed ▸ List.mem_append_left _ hid
  case recorded =>
    intro e he unit hunit
    obtain rfl := List.mem_singleton.1 he
    obtain ⟨row, hrow, hsource, hrowseen⟩ := hups.seen unit hunit
    rw [hdrafted.seen, hdrafted.changed, hdrafted.rows]
    refine ⟨row, hrow, hsource, List.mem_append_right _ hrowseen, List.mem_append_right _ hrowseen, ?_⟩
    exact fun hchanged => (hups.advanced unit hunit hchanged row hrow hsource).mono hsub
  case artifacts => exact hdrafted.artifacts
  case edges => exact hdrafted.edges
  case sound =>
    intro a ha
    obtain ⟨draft, hdraft, hrow⟩ := hdrafted.sound a ha
    obtain ⟨unit, hunit, -, hkey⟩ := keyedBy_of_drafted hups hdrafted hanswered hdraft hrow
    exact ⟨entry, List.mem_cons_self, ⟨unit, hunit, hkey⟩, result, hanswered, draft, hdraft,
      draftWritten_of_drafted hups hdrafted hanswered hplaced hdraft hrow⟩
  case complete =>
    intro e he result' hother draft hdraft
    obtain rfl := List.mem_singleton.1 he
    obtain rfl := hsame result' hother
    obtain ⟨a, ha, hrow⟩ := hdrafted.complete draft hdraft
    exact ⟨a, ha, draftWritten_of_drafted hups hdrafted hanswered hplaced hdraft hrow⟩
  case links_sound =>
    intro e he
    obtain ⟨draft, hdraft, hlink⟩ := hdrafted.links_sound e he
    exact ⟨entry, List.mem_cons_self, result, hanswered, draft, hdraft,
      linkDrawn_of_drafted hups hdrafted hanswered hplaced hlink⟩
  case links_complete =>
    intro e he result' hother draft hdraft
    obtain rfl := List.mem_singleton.1 he
    obtain rfl := hsame result' hother
    obtain ⟨link, hlink, hdrawn⟩ := hdrafted.links_complete draft hdraft
    exact ⟨link, hlink, linkDrawn_of_drafted hups hdrafted hanswered hplaced hdrawn⟩

end Repo

/-- The pass over all repos whose files are put aside. -/
theorem treeRewritten_units_by_repo (hinj : Function.Injective p.gen_random_uuid) (hwf : WellFormed p s.current)
    (hrows : RowsExist s.current s.code_units)
    (hplaced : ∀ unit ∈ s.code_units, CodeKey place unit.fetched.key ∧ place unit.fetched.key = (unit.repo, unit.path))
    (hanswered : ∀ entry ∈ units_by_repo s.code_units, ∃ result, Answered b entry.2 result)
    (hrun : (units_by_repo s.code_units).foldlM (graphify_one_repo p b) s = some s') :
    ∃ added links, TreeRewritten place p b s.current.build_seq s.code_units s s' (units_by_repo s.code_units) added
      links := by
  refine foldlM_prefix_invariant (I := fun done s' => ∃ added links,
      TreeRewritten place p b s.current.build_seq s.code_units s s' done added links) ?_ ⟨[], [], ?_⟩ hrun
  · rintro done mid entry s' hentry ⟨added, links, h⟩ hstep
    have hgroup := mem_units_by_repo hentry
    have hrepo : ∀ unit ∈ entry.2, CodeKey place unit.fetched.key ∧ place unit.fetched.key = (entry.1, unit.path) := by
      intro unit hunit
      obtain ⟨hmem, hname⟩ := hgroup unit hunit
      exact hname ▸ hplaced unit hmem
    obtain ⟨result, hresult⟩ := hanswered entry hentry
    obtain ⟨added', links', h'⟩ := treeRewritten_repo hinj h.wellFormed h.build_seq h.rows
      (fun unit hunit => (hgroup unit hunit).1) hrepo hresult hstep
    exact ⟨added ++ added', links ++ links', h.trans h'⟩
  · exact treeRewritten_nil hwf rfl hrows

/-- The row of a file of the pass holds the file's content and is live, when no file is put aside with two contents
and the unchanged ones stand like that. -/
theorem TreeRewritten.holds {done : List (String × List CodeUnit)} {added : List KnowledgeArtifact}
    {links : List KnowledgeEdge} (h : TreeRewritten place p b n units s s' done added links)
    (hone : ∀ unit ∈ units, ∀ unit' ∈ units, unit.fetched.key = unit'.fetched.key →
      unit.fetched.content_hash = unit'.fetched.content_hash)
    (hlive : ∀ unit ∈ units, unit.changed = false → ∀ row ∈ s.current.source_items,
      same_source unit.fetched row = true → row.content_hash = unit.fetched.content_hash ∧ row.is_deleted = false)
    {entry : String × List CodeUnit} (hentry : entry ∈ done) {unit : CodeUnit} (hunit : unit ∈ entry.2)
    (hmem : unit ∈ units) : ∃ row ∈ s'.current.source_items, same_source unit.fetched row = true ∧
      row.source_id ∈ s'.seen ∧ row.source_id ∈ s'.changed ∧ row.content_hash = unit.fetched.content_hash ∧
        row.is_deleted = false := by
  obtain ⟨row, hrow, hsame, hseen, hchanged, hadvanced⟩ := h.recorded entry hentry unit hunit
  have hadv : AdvancedTo units row → row.content_hash = unit.fetched.content_hash ∧ row.is_deleted = false := by
    rintro ⟨other, hother, -, hsame', hhash, hnotdeleted⟩
    rw [same_source_iff] at hsame hsame'
    exact ⟨hhash.trans (hone other hother unit hmem (hsame'.symm.trans hsame)), hnotdeleted⟩
  refine ⟨row, hrow, hsame, hseen, hchanged, ?_⟩
  cases hnew : unit.changed with
  | true => exact hadv (hadvanced hnew)
  | false =>
    cases h.origin row hrow with
    | inr hlater => exact hadv hlater
    | inl hkept =>
      obtain ⟨row₀, hrow₀, hk⟩ := hkept
      rw [same_source_iff] at hsame
      obtain ⟨hhash, hnotdeleted⟩ := hlive unit hmem hnew row₀ hrow₀ (same_source_iff.2 (hk.2.1.symm.trans hsame))
      exact ⟨hk.2.2.1.trans hhash, hk.2.2.2.trans hnotdeleted⟩

end Pass

end AgenticKb

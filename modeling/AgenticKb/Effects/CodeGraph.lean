import AgenticKb.Effects.Extraction

open AgenticKb.Lib

namespace AgenticKb

/-- A live artifact has this id. -/
def LiveArtifact (r : Registry) (id : Uuid) : Prop :=
  ∃ a ∈ r.artifacts, a.artifact_id = id ∧ a.Live

/-- The row carries the content of one of the changed files, and is live. -/
def AdvancedTo (units : List CodeUnit) (s : SourceItem) : Prop :=
  ∃ unit ∈ units, unit.changed = true ∧ same_source unit.fetched s = true ∧
    s.content_hash = unit.fetched.content_hash ∧ s.is_deleted = false

theorem AdvancedTo.mono {units units' : List CodeUnit} {s : SourceItem} (h : AdvancedTo units s)
    (hsub : ∀ unit ∈ units, unit ∈ units') : AdvancedTo units' s := by
  obtain ⟨unit, hunit, hrest⟩ := h
  exact ⟨unit, hsub unit hunit, hrest⟩

/-- An unchanged file has a row. -/
def RowsExist (r : Registry) (units : List CodeUnit) : Prop :=
  ∀ unit ∈ units, unit.changed = false → ∃ s ∈ r.source_items, same_source unit.fetched s = true

/-- The rows of a repo's files were advanced or touched, and no other table was written. -/
structure UnitsUpserted (p : Platform) (r : Registry) (units : List CodeUnit)
    (result : Registry × Dict String Uuid × List Uuid) : Prop where
  wellFormed : WellFormed p result.1
  only : OnlySources r result.1
  /-- Where every row comes from. -/
  origin : ∀ s' ∈ result.1.source_items,
    (∃ s ∈ r.source_items, Touched s s') ∨ AdvancedTo units s'
  /-- The row of a changed file was advanced. -/
  advanced : ∀ unit ∈ units, unit.changed = true → ∀ s' ∈ result.1.source_items,
    same_source unit.fetched s' = true → AdvancedTo units s'
  /-- No row is lost. -/
  persist : ∀ s ∈ r.source_items, ∃ s' ∈ result.1.source_items, s'.source_id = s.source_id ∧ s'.key = s.key
  /-- Every file's row is seen. -/
  seen : ∀ unit ∈ units, ∃ s' ∈ result.1.source_items, same_source unit.fetched s' = true ∧
    s'.source_id ∈ result.2.2
  /-- Only these rows are seen. -/
  seen_only : ∀ id ∈ result.2.2, ∃ unit ∈ units, ∃ s' ∈ result.1.source_items,
    s'.source_id = id ∧ same_source unit.fetched s' = true
  /-- A path stands for the row of the last file that has it. -/
  by_path : ∀ path unit, (units.reverse.find? fun unit => unit.path == path) = some unit →
    ∃ s' ∈ result.1.source_items, same_source unit.fetched s' = true ∧
      result.2.1.get? path = some s'.source_id

section Units

variable {p : Platform} {r : Registry}

/-- Advancing or touching the row of one file. -/
private theorem upsert_unit_spec (hwf : WellFormed p r) (hinj : Function.Injective p.gen_random_uuid)
    (unit : CodeUnit)
    (hrow : unit.changed = false → ∃ s ∈ r.source_items, same_source unit.fetched s = true) :
    ∃ r' id, upsert_unit p r unit = (r', some id) ∧ WellFormed p r' ∧ OnlySources r r' ∧
      (∃ s' ∈ r'.source_items, s'.source_id = id ∧ same_source unit.fetched s' = true) ∧
      (∀ s' ∈ r'.source_items, (∃ s ∈ r.source_items, Touched s s') ∨ AdvancedTo [unit] s') ∧
      (unit.changed = true → ∀ s' ∈ r'.source_items, same_source unit.fetched s' = true →
        AdvancedTo [unit] s') ∧
      ∀ s ∈ r.source_items, ∃ s' ∈ r'.source_items, s'.source_id = s.source_id ∧ s'.key = s.key := by
  unfold upsert_unit
  cases hchanged : unit.changed with
  | true =>
    have hadv := advanced_upsert_source_item unit.fetched hwf
    have hwf' := hwf.upsert_source_item unit.fetched hinj
    obtain ⟨s₁, hs₁, hid₁, hsame₁, hhash₁, hdel₁⟩ := hadv.row
    have hto : AdvancedTo [unit] s₁ := ⟨unit, by simp, hchanged, hsame₁, hhash₁, hdel₁⟩
    have honly : ∀ s' ∈ (upsert_source_item p r unit.fetched).1.source_items,
        s'.source_id = (upsert_source_item p r unit.fetched).2 → s' = s₁ :=
      fun s' hs' hid => hwf'.source_eq hs' hs₁ (hid.trans hid₁.symm)
    refine ⟨_, _, rfl, hwf', onlySources_upsert_source_item p r _, ⟨s₁, hs₁, hid₁, hsame₁⟩, ?_, ?_, ?_⟩
    · intro s' hs'
      by_cases hid : s'.source_id = (upsert_source_item p r unit.fetched).2
      · exact .inr (honly s' hs' hid ▸ hto)
      · exact .inl ⟨s', (hadv.others s' hid).1 hs', .refl s'⟩
    · intro _ s' hs' hsame
      rw [same_source_iff] at hsame hsame₁
      exact hwf'.source_eq_of_key hs' hs₁ (hsame.trans hsame₁.symm) ▸ hto
    · exact hadv.persist
  | false =>
    obtain ⟨s₀, hs₀, hsame₀⟩ := hrow hchanged
    have htouch := onlyTouched_touch_last_seen r unit.fetched
    have hid : (touch_last_seen r unit.fetched).2 = some s₀.source_id := by
      simp [touch_last_seen, hwf.source_row_eq hs₀ hsame₀]
    refine ⟨(touch_last_seen r unit.fetched).1, s₀.source_id, ?_, htouch.wellFormed hwf,
      ⟨htouch.artifacts, htouch.edges, htouch.build_seq, htouch.uuids.ge⟩, ?_, ?_, by simp, ?_⟩
    · rw [← hid]
      rfl
    · obtain ⟨s', hs', hk⟩ := htouch.source_items.successor hs₀
      refine ⟨s', hs', hk.1, ?_⟩
      rw [same_source_iff] at hsame₀ ⊢
      exact hk.2.1.trans hsame₀
    · exact fun s' hs' => .inl (htouch.origin hs')
    · intro s hs
      obtain ⟨s', hs', hk⟩ := htouch.source_items.successor hs
      exact ⟨s', hs', hk.1, hk.2.1⟩

private theorem same_source_of_key {fetched : NormalizedContent} {s s' : SourceItem}
    (hkey : s'.key = s.key) (h : same_source fetched s = true) : same_source fetched s' = true := by
  rw [same_source_iff] at h ⊢
  exact hkey.trans h

/-- The loop over a repo's files, by induction on the files already passed. -/
theorem upsert_units_spec (hwf : WellFormed p r) (hinj : Function.Injective p.gen_random_uuid)
    (units : List CodeUnit) (hrows : RowsExist r units) :
    UnitsUpserted p r units (upsert_units p r units) := by
  induction units using List.reverseRecOn with
  | nil =>
    exact
      { wellFormed := hwf
        only := ⟨rfl, rfl, rfl, le_rfl⟩
        origin := fun s' hs' => .inl ⟨s', hs', .refl s'⟩
        advanced := by simp
        persist := fun s hs => ⟨s, hs, rfl, rfl⟩
        seen := by simp
        seen_only := by simp [upsert_units]
        by_path := by simp }
  | append_singleton units unit ih =>
    have ih := ih fun u hu => hrows u (List.mem_append_left _ hu)
    have hrow : unit.changed = false →
        ∃ s ∈ (upsert_units p r units).1.source_items, same_source unit.fetched s = true := by
      intro hunchanged
      obtain ⟨s, hs, hsame⟩ := hrows unit (List.mem_append_right _ List.mem_cons_self) hunchanged
      obtain ⟨s', hs', -, hkey⟩ := ih.persist s hs
      exact ⟨s', hs', same_source_of_key hkey hsame⟩
    obtain ⟨r', id, heq, hwf', honly, ⟨s₁, hs₁, hid₁, hsame₁⟩, horigin, hadvanced, hpersist⟩ :=
      upsert_unit_spec ih.wellFormed hinj unit hrow
    have hresult : upsert_units p r (units ++ [unit]) =
        (r', Dict.set (upsert_units p r units).2.1 unit.path id, (upsert_units p r units).2.2 ++ [id]) := by
      simp only [upsert_units, List.foldl_append, List.foldl_cons, List.foldl_nil] at heq ⊢
      rw [heq]
    have hunit : ∀ {s'}, AdvancedTo [unit] s' → AdvancedTo (units ++ [unit]) s' := fun h =>
      h.mono fun u hu => List.mem_append_right _ hu
    have hunits : ∀ {s'}, AdvancedTo units s' → AdvancedTo (units ++ [unit]) s' := fun h =>
      h.mono fun u hu => List.mem_append_left _ hu
    -- a row advanced before this file is still advanced, to it or to this file
    have hkeep : ∀ s ∈ (upsert_units p r units).1.source_items, ∀ s' ∈ r'.source_items,
        AdvancedTo units s → Touched s s' → AdvancedTo (units ++ [unit]) s' := by
      rintro s - s' - ⟨u, hu, hch, hsame, hhash, hdel⟩ ⟨-, hkey, hhash', hdel'⟩
      exact ⟨u, List.mem_append_left _ hu, hch, same_source_of_key hkey hsame, hhash'.trans hhash,
        hdel'.trans hdel⟩
    rw [hresult]
    constructor
    · exact hwf'
    · exact ⟨honly.artifacts.trans ih.only.artifacts, honly.edges.trans ih.only.edges,
        honly.build_seq.trans ih.only.build_seq, ih.only.uuids.trans honly.uuids⟩
    · intro s' hs'
      rcases horigin s' hs' with ⟨s, hs, hk⟩ | hadv
      · rcases ih.origin s hs with ⟨s₀, hs₀, hk₀⟩ | hadv₀
        · exact .inl ⟨s₀, hs₀, hk₀.trans hk⟩
        · exact .inr (hkeep s hs s' hs' hadv₀ hk)
      · exact .inr (hunit hadv)
    · intro u hu hch s' hs' hsame
      rcases horigin s' hs' with ⟨s, hs, hk⟩ | hadv
      · rcases List.mem_append.1 hu with hu | hu
        · exact hkeep s hs s' hs' (ih.advanced u hu hch s hs (same_source_of_key hk.2.1.symm hsame)) hk
        · rw [List.mem_singleton.1 hu] at hch hsame
          exact hunit (hadvanced hch s' hs' hsame)
      · exact hunit hadv
    · intro s hs
      obtain ⟨s₀, hs₀, hid, hkey⟩ := ih.persist s hs
      obtain ⟨s', hs', hid', hkey'⟩ := hpersist s₀ hs₀
      exact ⟨s', hs', hid'.trans hid, hkey'.trans hkey⟩
    · intro u hu
      rcases List.mem_append.1 hu with hu | hu
      · obtain ⟨s₀, hs₀, hsame, hseen⟩ := ih.seen u hu
        obtain ⟨s', hs', hid', hkey'⟩ := hpersist s₀ hs₀
        exact ⟨s', hs', same_source_of_key hkey' hsame, hid' ▸ List.mem_append_left _ hseen⟩
      · rw [List.mem_singleton.1 hu]
        exact ⟨s₁, hs₁, hsame₁, hid₁ ▸ List.mem_append_right _ List.mem_cons_self⟩
    · intro id' hid'
      rcases List.mem_append.1 hid' with hid' | hid'
      · obtain ⟨u, hu, s₀, hs₀, hid₀, hsame⟩ := ih.seen_only id' hid'
        obtain ⟨s', hs', hid'', hkey'⟩ := hpersist s₀ hs₀
        exact ⟨u, List.mem_append_left _ hu, s', hs', hid''.trans hid₀, same_source_of_key hkey' hsame⟩
      · rw [List.mem_singleton.1 hid']
        exact ⟨unit, List.mem_append_right _ List.mem_cons_self, s₁, hs₁, hid₁, hsame₁⟩
    · intro path u hfind
      rw [List.reverse_append, List.reverse_singleton, List.singleton_append, List.find?_cons] at hfind
      split at hfind
      · rename_i hpath
        simp only [beq_iff_eq] at hpath
        obtain rfl := Option.some.inj hfind
        exact ⟨s₁, hs₁, hsame₁, by simp [Dict.get?_set, hpath, hid₁]⟩
      · rename_i hpath
        obtain ⟨s₀, hs₀, hsame, hget⟩ := ih.by_path path u hfind
        obtain ⟨s', hs', hid', hkey'⟩ := hpersist s₀ hs₀
        refine ⟨s', hs', same_source_of_key hkey' hsame, ?_⟩
        have hne : path ≠ unit.path := fun heq' => by simp [heq'] at hpath
        simpa [Dict.get?_set, hne, hid'] using hget

end Units

theorem LiveArtifact.appended {r r' : Registry} {added : List KnowledgeArtifact} {id : Uuid}
    (h : LiveArtifact r id) (hr : r'.artifacts = r.artifacts ++ added) : LiveArtifact r' id := by
  obtain ⟨a, ha, hrest⟩ := h
  exact ⟨a, hr ▸ List.mem_append_left _ ha, hrest⟩

/-- The unit that stands for a path: the last file that has it. -/
def unit_at (units : List CodeUnit) (path : String) : Option CodeUnit :=
  units.reverse.find? fun unit => unit.path == path

/-- The artifacts of some paths of a repo were written. -/
structure PathsWritten (p : Platform) (r : Registry) (units : List CodeUnit)
    (unit_source_ids : Dict String Uuid) (entries : List (String × List CodeArtifactDraft))
    (key_map : CodeKeyMap) (w : CodeWrites) (added : List KnowledgeArtifact) : Prop where
  wellFormed : WellFormed p w.registry
  appended : Appended r w.registry added
  /-- Every artifact comes from the file of some path and hangs on the row of that path. -/
  extracted : ∀ a ∈ added, ∃ path unit, unit_at units path = some unit ∧
    unit_source_ids.get? path = some a.source_id ∧ (∃ entry ∈ entries, entry.1 = path) ∧
    Extracted r.build_seq a.source_id unit.fetched.content_hash a
  not_commit : ∀ a ∈ added, a.artifact_type ≠ .commit
  /-- Every path with a file and a draft got an artifact. -/
  covered : ∀ entry ∈ entries, entry.2 ≠ [] → (unit_at units entry.1).isSome → ∀ id,
    unit_source_ids.get? entry.1 = some id → ∃ a ∈ added, a.source_id = id
  keys : ∀ entry ∈ w.code_key_map, entry ∈ key_map ∨ LiveArtifact w.registry entry.2

section Paths

variable {p : Platform} {b : Build} {r : Registry} {units : List CodeUnit}
  {unit_source_ids : Dict String Uuid} {repo : String}

/-- Writing one more path. -/
private theorem write_path_step (b : Build) (repo : String) (hinj : Function.Injective p.gen_random_uuid)
    {entries : List (String × List CodeArtifactDraft)} {key_map : CodeKeyMap} {w : CodeWrites}
    {added : List KnowledgeArtifact} (h : PathsWritten p r units unit_source_ids entries key_map w added)
    (entry : String × List CodeArtifactDraft) :
    ∃ added', PathsWritten p r units unit_source_ids (entries ++ [entry]) key_map
      (write_path p b units unit_source_ids repo w entry) (added ++ added') := by
  unfold write_path
  split
  · rename_i unit source_id hunit hsource
    obtain ⟨ids, ⟨⟨added', happ, hids, hlen, hext, hown⟩, hwrite⟩, hkeys⟩ :=
      writesExtracted_write_code_artifacts p w.registry (source_id, unit.fetched.content_hash)
        b.kb_version unit.fetched.source.acl_teams entry.2
    have hseq : w.registry.build_seq = r.build_seq := h.appended.build_seq
    refine ⟨added', hwrite h.wellFormed hinj, ?_, ?_, fun a ha => (List.mem_append.1 ha).elim (h.not_commit a) (hown a), ?_, ?_⟩
    · exact
        { artifacts := by rw [happ.artifacts, h.appended.artifacts, List.append_assoc]
          source_items := happ.source_items.trans h.appended.source_items
          edges := happ.edges.trans h.appended.edges
          build_seq := happ.build_seq.trans h.appended.build_seq
          uuids := h.appended.uuids.trans happ.uuids }
    · intro a ha
      rcases List.mem_append.1 ha with ha | ha
      · obtain ⟨path, unit', hat, hget, ⟨e, he, hpath⟩, hold⟩ := h.extracted a ha
        exact ⟨path, unit', hat, hget, ⟨e, List.mem_append_left _ he, hpath⟩, hold⟩
      · have hae := hext a ha
        exact ⟨entry.1, unit, hunit, by rw [hae.source_id]; exact hsource, ⟨entry, by simp, rfl⟩,
          by rw [hae.source_id]; exact hseq ▸ hae⟩
    · intro e he hne hsome id hget
      rcases List.mem_append.1 he with he | he
      · obtain ⟨a, ha, hid⟩ := h.covered e he hne hsome id hget
        exact ⟨a, List.mem_append_left _ ha, hid⟩
      · rw [List.mem_singleton.1 he] at hne hget
        have hpos : added' ≠ [] := by
          rintro rfl
          exact hne (List.length_eq_zero_iff.1 hlen.symm)
        obtain ⟨a, ha⟩ := List.exists_mem_of_ne_nil _ hpos
        refine ⟨a, List.mem_append_right _ ha, (hext a ha).source_id.trans ?_⟩
        exact Option.some.inj (hsource.symm.trans hget)
    · intro e he
      rcases Dict.mem_foldl_set (fun x : String × Uuid => (repo, x.1)) Prod.snd he with
        hold | ⟨x, hx, rfl⟩
      · rcases h.keys e hold with hold | hlive
        · exact .inl hold
        · exact .inr (hlive.appended happ.artifacts)
      · rw [hkeys] at hx
        rcases Dict.mem_foldl_set Prod.fst Prod.snd hx with hnil | ⟨y, hy, rfl⟩
        · simp at hnil
        · have hid : y.2 ∈ added'.map (·.artifact_id) := by
            have hid : y.2 ∈ ids := (List.of_mem_zip (a := y.1) (b := y.2) hy).2
            exact hids ▸ hid
          obtain ⟨a, ha, hida⟩ := List.mem_map.1 hid
          exact .inr ⟨a, happ.artifacts ▸ List.mem_append_right _ ha, hida, (hext a ha).introduced.2⟩
  · rename_i hnone
    refine ⟨[], ?_⟩
    rw [List.append_nil]
    refine { h with extracted := ?_, covered := ?_ }
    · intro a ha
      obtain ⟨path, unit, hat, hget, ⟨e, he, hpath⟩, hold⟩ := h.extracted a ha
      exact ⟨path, unit, hat, hget, ⟨e, List.mem_append_left _ he, hpath⟩, hold⟩
    · intro e he hne hsome id hget
      rcases List.mem_append.1 he with he | he
      · exact h.covered e he hne hsome id hget
      · rw [List.mem_singleton.1 he] at hsome hget
        obtain ⟨unit, hunit⟩ := Option.isSome_iff_exists.1 hsome
        exact (hnone unit id hunit hget).elim

theorem write_paths_spec (b : Build) (units : List CodeUnit) (unit_source_ids : Dict String Uuid)
    (repo : String) (hinj : Function.Injective p.gen_random_uuid) (hwf : WellFormed p r)
    (entries : List (String × List CodeArtifactDraft)) (key_map : CodeKeyMap) :
    ∃ added, PathsWritten p r units unit_source_ids entries key_map
      (entries.foldl (write_path p b units unit_source_ids repo) { registry := r, code_key_map := key_map })
      added := by
  induction entries using List.reverseRecOn with
  | nil =>
    exact ⟨[], hwf, ⟨by simp, rfl, rfl, rfl, le_rfl⟩, by simp, by simp, by simp, fun entry he => .inl he⟩
  | append_singleton entries entry ih =>
    obtain ⟨added, h⟩ := ih
    obtain ⟨added', h'⟩ := write_path_step b repo hinj h entry
    exact ⟨added ++ added', by simpa only [List.foldl_append, List.foldl_cons, List.foldl_nil] using h'⟩

end Paths

theorem mem_drafts_by_path {drafts : List CodeArtifactDraft} {draft : CodeArtifactDraft}
    (h : draft ∈ drafts) :
    ∃ entry ∈ drafts_by_path drafts, entry.1 = path_of_code_key draft.key ∧ entry.2 ≠ [] := by
  obtain ⟨group, hgroup, -⟩ := Dict.mem_group_of_mem (fun d : CodeArtifactDraft => path_of_code_key d.key) h
  have hmem := Dict.mem_of_get? hgroup
  exact ⟨_, hmem, rfl, (Dict.group_sound _ hmem).1⟩

/-- A path has a group only for its drafts. -/
theorem exists_draft_of_mem {drafts : List CodeArtifactDraft} {entry : String × List CodeArtifactDraft}
    (h : entry ∈ drafts_by_path drafts) : ∃ draft ∈ drafts, path_of_code_key draft.key = entry.1 := by
  obtain ⟨hne, hall⟩ := Dict.group_sound (fun d : CodeArtifactDraft => path_of_code_key d.key) h
  obtain ⟨draft, hdraft⟩ := List.exists_mem_of_ne_nil _ hne
  exact ⟨draft, hall draft hdraft⟩

section Edges

variable {p : Platform} {r r' : Registry} {repo : String} {key_map : CodeKeyMap}

/-- Resolution reads the artifacts and the source rows. -/
theorem resolve_key_congr {key : String} (ha : r'.artifacts = r.artifacts)
    (hs : r'.source_items = r.source_items) :
    resolve_key r' repo key key_map = resolve_key r repo key key_map := by
  simp only [resolve_key, matching_artifacts, Registry.joined, Registry.source_of, ha, hs]

/-- `id` is what one of the keys of the drafts resolves to. -/
def Resolved (r : Registry) (repo : String) (key_map : CodeKeyMap) (drafts : List CodeEdgeDraft)
    (id : Uuid) : Prop :=
  ∃ draft ∈ drafts, ∃ key ∈ [draft.from_key, draft.to_key],
    resolve_key r repo key key_map = some (some id)

theorem Resolved.congr {drafts : List CodeEdgeDraft} {id : Uuid}
    (h : Resolved r repo key_map drafts id) (ha : r'.artifacts = r.artifacts)
    (hs : r'.source_items = r.source_items) : Resolved r' repo key_map drafts id := by
  obtain ⟨draft, hdraft, key, hkey, heq⟩ := h
  exact ⟨draft, hdraft, key, hkey, (resolve_key_congr ha hs).trans heq⟩

/-- Code edges were appended, and nothing else changed but the number of ids drawn. -/
structure EdgesAppended (p : Platform) (r r' : Registry) (repo : String) (key_map : CodeKeyMap)
    (drafts : List CodeEdgeDraft) (added : List KnowledgeEdge) : Prop where
  edges : r'.edges = r.edges ++ added
  artifacts : r'.artifacts = r.artifacts
  source_items : r'.source_items = r.source_items
  build_seq : r'.build_seq = r.build_seq
  introduced : ∀ e ∈ added, e.IntroducedBy r.build_seq
  source : ∀ e ∈ added, e.source = some .graphify
  endpoints : ∀ e ∈ added, Resolved r repo key_map drafts e.from_artifact_id ∧
    Resolved r repo key_map drafts e.to_artifact_id
  wellFormed : WellFormed p r → WellFormed p r'

theorem write_code_edges_spec {kb_version : String} {drafts : List CodeEdgeDraft}
    (h : write_code_edges p r kb_version r.build_seq repo drafts key_map = some r') :
    ∃ added, EdgesAppended p r r' repo key_map drafts added := by
  refine foldlM_invariant (I := fun r' => ∃ added, EdgesAppended p r r' repo key_map drafts added)
    ?_ ⟨[], by simp, rfl, rfl, rfl, by simp, by simp, by simp, id⟩ h
  rintro mid draft r' hdraft ⟨added, hadded⟩ hstep
  simp only [write_code_edge, Option.bind_eq_bind, Option.bind_eq_some_iff] at hstep
  obtain ⟨from_id, hfrom, to_id, hto, hstep⟩ := hstep
  rw [resolve_key_congr hadded.artifacts hadded.source_items] at hfrom hto
  split at hstep
  · rename_i from_artifact_id to_artifact_id
    obtain ⟨row, rfl, hrow⟩ : ∃ row : Uuid → KnowledgeEdge, r' = mid.add_edge p row ∧
        ∀ id, (row id).IntroducedBy r.build_seq ∧ (row id).source = some .graphify ∧
          (row id).from_artifact_id = from_artifact_id ∧ (row id).to_artifact_id = to_artifact_id :=
      ⟨_, (Option.some.inj hstep).symm, fun id => ⟨⟨rfl, rfl⟩, rfl, rfl, rfl⟩⟩
    refine ⟨added ++ [row (mid.fresh p)], ?_, hadded.artifacts, hadded.source_items, hadded.build_seq,
      ?_, ?_, ?_, ?_⟩
    · simp only [Registry.add_edge, hadded.edges, List.append_assoc]
    · simp only [List.mem_append, List.mem_singleton]
      rintro e (he | rfl)
      · exact hadded.introduced e he
      · exact (hrow _).1
    · simp only [List.mem_append, List.mem_singleton]
      rintro e (he | rfl)
      · exact hadded.source e he
      · exact (hrow _).2.1
    · simp only [List.mem_append, List.mem_singleton]
      rintro e (he | rfl)
      · exact hadded.endpoints e he
      · rw [(hrow _).2.2.1, (hrow _).2.2.2]
        exact ⟨⟨draft, hdraft, _, by simp, hfrom⟩, ⟨draft, hdraft, _, by simp, hto⟩⟩
    · exact fun hwf => (hadded.wellFormed hwf).add_edge fun id => hadded.build_seq.symm ▸ (hrow id).1
  · exact ⟨added, Option.some.inj hstep ▸ hadded⟩

end Edges

/-- One repo's code graph was rewritten. -/
structure RepoWritten (p : Platform) (b : Build) (s s' : SourceLoop) (repo : String) (units : List CodeUnit)
    (result : GraphifyResult) (rows : Registry × Dict String Uuid × List Uuid)
    (added : List KnowledgeArtifact) (links : List KnowledgeEdge) : Prop where
  upserted : UnitsUpserted p s.current units rows
  /-- The edges were written to the registry the artifacts left. -/
  staged : ∃ r ids, write_repo_artifacts p b s repo units result.artifacts = some (r, s'.code_key_map, ids) ∧
    r.artifacts = s'.current.artifacts ∧ r.source_items = s'.current.source_items
  source_items : s'.current.source_items = rows.1.source_items
  artifacts : s'.current.artifacts = s.current.artifacts ++ added
  extracted : ∀ a ∈ added, ∃ path unit, unit_at units path = some unit ∧
    rows.2.1.get? path = some a.source_id ∧ (∃ draft ∈ result.artifacts, path_of_code_key draft.key = path) ∧
    Extracted s.current.build_seq a.source_id unit.fetched.content_hash a
  not_commit : ∀ a ∈ added, a.artifact_type ≠ .commit
  covered : ∀ draft ∈ result.artifacts, (unit_at units (path_of_code_key draft.key)).isSome → ∀ id,
    rows.2.1.get? (path_of_code_key draft.key) = some id → ∃ a ∈ added, a.source_id = id
  edges : s'.current.edges = s.current.edges ++ links
  introduced : ∀ e ∈ links, e.IntroducedBy s.current.build_seq
  source : ∀ e ∈ links, e.source = some .graphify
  endpoints : ∀ e ∈ links, Resolved s'.current repo s'.code_key_map result.edges e.from_artifact_id ∧
    Resolved s'.current repo s'.code_key_map result.edges e.to_artifact_id
  keys : ∀ entry ∈ s'.code_key_map, entry ∈ s.code_key_map ∨ LiveArtifact s'.current entry.2
  build_seq : s'.current.build_seq = s.current.build_seq
  wellFormed : WellFormed p s'.current
  /-- The loop gathers the repo's sources as seen and changed. -/
  gathered : s' = { s with
    current := s'.current, code_key_map := s'.code_key_map, seen := s.seen ++ rows.2.2
    changed := s.changed ++ rows.2.2 }

/-- A repo pass fails in graphify and writes nothing, or rewrites the repo. -/
theorem graphify_one_repo_spec {p : Platform} {b : Build} {s s' : SourceLoop}
    {entry : String × List CodeUnit} (hwf : WellFormed p s.current)
    (hinj : Function.Injective p.gen_random_uuid) (hrows : RowsExist s.current entry.2)
    (h : graphify_one_repo p b s entry = some s') :
    (b.graphify_tree (entry.2.map fun unit => (unit.path, unit.fetched.text)) = none ∧
      s' = { s with
        extractor_failures := s.extractor_failures + 1
        failed := s.failed ++ entry.2.map (·.fetched) }) ∨
    ∃ result rows added links,
      b.graphify_tree (entry.2.map fun unit => (unit.path, unit.fetched.text)) = some result ∧
        RepoWritten p b s s' entry.1 entry.2 result rows added links := by
  obtain ⟨repo, units⟩ := entry
  simp only [graphify_one_repo] at h
  split at h
  · rename_i hnone
    exact .inl ⟨hnone, (Option.some.inj h).symm⟩
  · rename_i result hresult
    refine .inr ⟨result, upsert_units p s.current units, ?_⟩
    simp only [Option.bind_eq_bind, Option.bind_eq_some_iff, Option.some.injEq, Prod.exists,
      write_repo_artifacts, Prod.mk.injEq] at h
    obtain ⟨staged, key_map, ids, ⟨indexed, hindex, rfl, rfl, rfl⟩, r', hedges, rfl⟩ := h
    have hups := upsert_units_spec hwf hinj units hrows
    obtain ⟨added, hpaths⟩ := write_paths_spec b units (upsert_units p s.current units).2.1 repo hinj hups.wellFormed
      (drafts_by_path result.artifacts) s.code_key_map
    have hsame := sameCore_embed_and_index hindex
    obtain ⟨links, happ⟩ := write_code_edges_spec hedges
    refine ⟨added, links, hresult, ?_⟩
    have hseq : indexed.build_seq = s.current.build_seq :=
      hsame.build_seq.trans (hpaths.appended.build_seq.trans hups.only.build_seq)
    constructor
    · exact hups
    · refine ⟨indexed, (upsert_units p s.current units).2.2, ?_, happ.artifacts.symm, happ.source_items.symm⟩
      simp only [write_repo_artifacts, hindex, Option.bind_eq_bind, Option.bind_some]
    · exact happ.source_items.trans (hsame.source_items.trans hpaths.appended.source_items)
    · rw [happ.artifacts, hsame.artifacts, hpaths.appended.artifacts, hups.only.artifacts]
    · intro a ha
      obtain ⟨path, unit, hat, hget, ⟨entry, hentry, rfl⟩, hext⟩ := hpaths.extracted a ha
      exact ⟨entry.1, unit, hat, hget, exists_draft_of_mem hentry, hups.only.build_seq ▸ hext⟩
    · exact hpaths.not_commit
    · intro draft hdraft hsome id hget
      obtain ⟨entry, hentry, hpath, hne⟩ := mem_drafts_by_path hdraft
      exact hpaths.covered entry hentry hne (hpath ▸ hsome) id (hpath ▸ hget)
    · rw [happ.edges, hsame.edges, hpaths.appended.edges, hups.only.edges]
    · exact fun e he => hseq ▸ happ.introduced e he
    · exact happ.source
    · intro e he
      obtain ⟨hfrom, hto⟩ := happ.endpoints e he
      exact ⟨hfrom.congr happ.artifacts happ.source_items, hto.congr happ.artifacts happ.source_items⟩
    · intro entry hentry
      rcases hpaths.keys entry hentry with hold | ⟨a, ha, hlive⟩
      · exact .inl hold
      · exact .inr ⟨a, by rw [happ.artifacts, hsame.artifacts]; exact ha, hlive⟩
    · exact happ.build_seq.trans hseq
    · exact happ.wellFormed (hpaths.wellFormed.of_sameCore hsame)
    · rfl

end AgenticKb

import AgenticKb.ExportObsidian
import AgenticKb.Lib.Suffixes

open AgenticKb.Lib

namespace AgenticKb

/-! Which artifacts keep a file of their own in the exported vault. -/

/-- The notes have distinct paths, no file is written twice, and the target of a link to an artifact is the
file of that artifact's note. -/
structure NotesApart (deps : ExportDeps) (r : Registry) (build_seq : Nat) (kb_version : String) : Prop where
  paths : ((written_notes deps r build_seq).map note_path).Nodup
  /-- One file for each artifact, and the index. -/
  count : (export_obsidian deps r build_seq kb_version).length = (load_artifacts deps r build_seq).length + 1
  noted : ∀ artifact ∈ load_artifacts deps r build_seq,
    ∃ note, (export_notes deps r build_seq).get? (artifact_key deps artifact) = some note
  resolves : ∀ artifact_id note, (export_notes deps r build_seq).get? artifact_id = some note →
    note.artifact_id = artifact_id ∧
      (export_obsidian deps r build_seq kb_version).get? (link_target note ++ ".md") =
        some (rendered_note deps r build_seq note)

/-- The suffixes are fresh: no two artifacts that repeat a slug of their folder have that slug and the first group
of their ids in common, and none gets as its suffixed slug the slug of another artifact's title. -/
structure SuffixesFresh (deps : ExportDeps) (artifacts : List KnowledgeArtifact) : Prop where
  short_ids : ((repeated (slug_key deps) [] artifacts).map fun again =>
    (slug_key deps again, artifact_short deps again)).Nodup
  titles : ∀ again ∈ repeated (slug_key deps) [] artifacts, ∀ artifact ∈ artifacts,
    ¬(note_folder deps artifact = note_folder deps again ∧ base_slug deps artifact = suffixed_slug deps again)

section Slugs

variable {deps : ExportDeps}

private theorem slash_not_mem_hyphenate (inside : Bool) (text : List Char) : '/' ∉ hyphenate inside text := by
  induction text generalizing inside with
  | nil => exact List.not_mem_nil
  | cons c text ih =>
    rw [hyphenate]
    split
    · rename_i hc
      rw [List.mem_cons, not_or]
      refine ⟨?_, ih false⟩
      rintro rfl
      exact absurd hc (by decide)
    · split
      · exact ih true
      · rw [List.mem_cons, not_or]
        exact ⟨by decide, ih true⟩

private theorem strip_hyphens_subset (text : List Char) : strip_hyphens text ⊆ text := by
  intro c hc
  rw [strip_hyphens, List.mem_reverse] at hc
  have hleft := (List.dropWhile_suffix _).subset hc
  rw [List.mem_reverse] at hleft
  exact (List.dropWhile_suffix _).subset hleft

private theorem toLower_ne_slash {c : Char} (hc : c ≠ '/') : c.toLower ≠ '/' := by
  delta Char.toLower
  split
  · rename_i hupper
    intro heq
    have hval := congrArg Char.toNat heq
    have hslash : '/'.toNat = 47 := rfl
    have hbound : 65 ≤ c.val := hupper.1
    have htop : c.val ≤ 90 := hupper.2
    rw [UInt32.le_iff_toNat_le] at hbound htop
    have h65 : (65 : UInt32).toNat = 65 := rfl
    have h90 : (90 : UInt32).toNat = 90 := rfl
    have h32 : ('a'.val - 'A'.val).toNat = 32 := rfl
    simp only [Char.toNat, UInt32.toNat_add] at hval hslash
    omega
  · exact hc

theorem slash_not_mem_slugify (nfkd : String → String) (value : String) {fallback : String} (h : '/' ∉ fallback.toList) :
    '/' ∉ (slugify nfkd value fallback).toList := by
  rw [slugify]
  split
  · exact h
  · rw [String.toList_ofList]
    intro hslash
    have htaken := List.mem_of_mem_take (strip_hyphens_subset _ hslash)
    obtain ⟨c, hc, heq⟩ := List.mem_map.1 htaken
    apply toLower_ne_slash (c := c) _ heq
    rintro rfl
    exact slash_not_mem_hyphenate false _ (strip_hyphens_subset _ hc)

private theorem slash_not_mem_folders : ∀ entry ∈ TYPE_FOLDERS, '/' ∉ entry.2.toList := by decide +kernel

private theorem slash_not_mem_type_folder (nfkd : String → String) (artifact_type : ArtifactType) :
    '/' ∉ (type_folder nfkd artifact_type.text).toList := by
  rw [type_folder]
  cases hfolder : TYPE_FOLDERS.get? artifact_type.text with
  | none =>
    rw [Option.getD_none]
    exact slash_not_mem_slugify nfkd _ (by decide +kernel)
  | some folder =>
    rw [Option.getD_some]
    exact slash_not_mem_folders (_, folder) (Dict.mem_of_get? hfolder)

end Slugs

section Names

variable (deps : ExportDeps)

def suffixed_name (artifact : KnowledgeArtifact) : String × String :=
  (note_folder deps artifact, suffixed_slug deps artifact)

/-- Each artifact beside the folder and the slug of its note. -/
def note_names (artifacts : List KnowledgeArtifact) : List (KnowledgeArtifact × (String × String)) :=
  named (slug_key deps) (suffixed_name deps) [] artifacts

variable {deps} {artifacts : List KnowledgeArtifact}

/-- The loop gives the notes their names, when it has counted the slugs in `seen`. -/
private theorem foldl_assign_slug (notes : Dict String Note) {counts : Dict (String × String) Nat}
    {seen : List (String × String)} (hseen : ∀ key, (counts.get? key).getD 0 ≠ 0 ↔ key ∈ seen) :
    (artifacts.foldl (assign_slug deps) (notes, counts)).1 =
      (named (slug_key deps) (suffixed_name deps) seen artifacts).foldl
        (fun notes entry => Dict.set notes (artifact_key deps entry.1) (note_of deps entry.2.2 entry.1)) notes := by
  induction artifacts generalizing notes counts seen with
  | nil => rfl
  | cons artifact artifacts ih =>
    have hcounted : ∀ key, ((counts.set (slug_key deps artifact)
        ((counts.get? (slug_key deps artifact)).getD 0 + 1)).get? key).getD 0 ≠ 0 ↔
        key ∈ slug_key deps artifact :: seen := by
      intro key
      rw [Dict.get?_set, List.mem_cons]
      by_cases hkey : key = slug_key deps artifact
      · simp [hkey]
      · simp [hkey, hseen key]
    rw [List.foldl_cons, named, List.foldl_cons, assign_slug]
    dsimp only
    rw [ih _ hcounted]
    by_cases hmet : slug_key deps artifact ∈ seen
    · rw [if_pos ((hseen _).2 hmet), if_pos hmet, suffixed_name]
    · rw [if_neg fun h => hmet ((hseen _).1 h), if_neg hmet, slug_key]

theorem assign_slugs_eq (hkeys : (artifacts.map (artifact_key deps)).Nodup) :
    assign_slugs deps artifacts =
      (note_names deps artifacts).map fun entry => (artifact_key deps entry.1, note_of deps entry.2.2 entry.1) := by
  have hnodup : ((note_names deps artifacts).map fun entry : KnowledgeArtifact × (String × String) =>
        artifact_key deps entry.1).Nodup := by
    have hfst := map_fst_named (slug_key deps) (suffixed_name deps) [] artifacts
    rw [← hfst, List.map_map] at hkeys
    exact hkeys
  have hstart : ∀ key : String × String, ((Dict.get? ([] : Dict (String × String) Nat) key).getD 0 ≠ 0) ↔ key ∈ [] := by
    simp [Dict.get?]
  rw [assign_slugs, foldl_assign_slug [] hstart]
  exact Dict.foldl_set_eq_map (fun entry : KnowledgeArtifact × (String × String) => artifact_key deps entry.1) _ hnodup

/-- Filling in the sources changes nothing else of a note. -/
private theorem get?_fill_source_uris (r : Registry) {β : Type} (g : Note → β)
    (hg : ∀ note source_uri, g { note with source_uri := source_uri } = g note) (notes : Dict String Note) (key : String) :
    ((artifacts.foldl (fill_source_uri deps r) notes).get? key).map g = (notes.get? key).map g := by
  induction artifacts generalizing notes with
  | nil => rfl
  | cons artifact artifacts ih =>
    rw [List.foldl_cons, ih, fill_source_uri]
    cases hnote : notes.get? (artifact_key deps artifact) with
    | none => rw [Option.map_none, Dict.set_some]
    | some note =>
      rw [Option.map_some, Dict.set_some, Dict.get?_set]
      by_cases hkey : key = artifact_key deps artifact
      · rw [if_pos hkey, hkey, hnote, Option.map_some, Option.map_some, hg]
      · rw [if_neg hkey]

/-- The path of the note with a name. -/
def name_path (name : String × String) : String := name.1 ++ "/" ++ name.2 ++ ".md"

theorem note_path_note_of {artifacts : List KnowledgeArtifact} {entry : KnowledgeArtifact × (String × String)}
    (h : entry ∈ note_names deps artifacts) : note_path (note_of deps entry.2.2 entry.1) = name_path entry.2 := by
  have hfolder : entry.2.1 = note_folder deps entry.1 := by
    cases mem_named h with
    | inl hname => rw [hname, slug_key]
    | inr hname => rw [hname, suffixed_name]
  rw [note_path, link_target, name_path, hfolder]
  rfl

theorem slash_not_mem_name (hslash : ∀ id, '/' ∉ (deps.platform.str_uuid id).toList)
    {entry : KnowledgeArtifact × (String × String)} (h : entry ∈ note_names deps artifacts) :
    '/' ∉ entry.2.1.toList ∧ '/' ∉ entry.2.2.toList := by
  have hfolder : '/' ∉ (note_folder deps entry.1).toList := slash_not_mem_type_folder _ _
  have hshort : '/' ∉ (artifact_short deps entry.1).toList := fun hmem =>
    hslash entry.1.artifact_id ((before_first_opens _ _).subset hmem)
  have hbase : '/' ∉ (base_slug deps entry.1).toList := slash_not_mem_slugify _ _ hshort
  cases mem_named h with
  | inl hname =>
    rw [hname, slug_key]
    dsimp only
    exact ⟨hfolder, hbase⟩
  | inr hname =>
    rw [hname, suffixed_name]
    dsimp only
    refine ⟨hfolder, ?_⟩
    rw [suffixed_slug, String.toList_append, String.toList_append, List.mem_append, List.mem_append]
    rintro ((hmem | hmem) | hmem)
    · exact hbase hmem
    · exact absurd hmem (by decide)
    · exact hshort hmem

private theorem name_path_inj {name other : String × String} (hfolder : '/' ∉ name.1.toList)
    (hslug : '/' ∉ name.2.toList) (h : name_path other = name_path name) : other = name := by
  have htext := congrArg String.toList h
  simp only [name_path, String.toList_append, List.append_assoc] at htext
  have hleft : ¬['/'] <:+: name.1.toList ++ ['/'].dropLast := by simpa [List.singleton_infix_iff] using hfolder
  have hright : ¬['/'] <:+: ['/'].tail ++ (name.2.toList ++ ".md".toList) := by
    rw [List.singleton_infix_iff, List.tail_cons, List.nil_append, List.mem_append, not_or]
    exact ⟨hslug, by decide⟩
  obtain ⟨hfirst, hsecond⟩ := append_sep_inj (List.cons_ne_nil '/' []) hleft hright htext
  exact Prod.ext (String.toList_inj.1 hfirst) (String.toList_inj.1 (List.append_cancel_right hsecond))

private theorem suffixed_name_inj (artifact again : KnowledgeArtifact) :
    suffixed_name deps artifact = suffixed_name deps again ↔
      slug_key deps artifact = slug_key deps again ∧ artifact_short deps artifact = artifact_short deps again := by
  -- the last hyphen of a suffixed slug stands before the suffix
  have hsplit : ∀ a, rpartition (suffixed_slug deps a) "-" = some (base_slug deps a, artifact_short deps a) := by
    intro a
    rw [suffixed_slug, rpartition_append_iff (by decide)]
    have hshort : '-' ∉ (artifact_short deps a).toList := not_mem_before_first '-' (artifact_key deps a)
    simpa [List.singleton_infix_iff] using hshort
  rw [suffixed_name, suffixed_name, slug_key, slug_key, Prod.mk.injEq, Prod.mk.injEq]
  constructor
  · rintro ⟨hfolder, hslug⟩
    have hparts := hsplit artifact
    rw [hslug, hsplit again] at hparts
    simp only [Option.some.injEq, Prod.mk.injEq] at hparts
    exact ⟨⟨hfolder, hparts.1.symm⟩, hparts.2.symm⟩
  · rintro ⟨⟨hfolder, hbase⟩, hshort⟩
    exact ⟨hfolder, by rw [suffixed_slug, suffixed_slug, hbase, hshort]⟩

/-- The names are distinct exactly when the suffixes are fresh. -/
theorem nodup_note_names_iff :
    ((note_names deps artifacts).map (·.2)).Nodup ↔ SuffixesFresh deps artifacts := by
  have hsuffixed : ((repeated (slug_key deps) [] artifacts).map (suffixed_name deps)).Nodup ↔
      ((repeated (slug_key deps) [] artifacts).map fun again =>
        (slug_key deps again, artifact_short deps again)).Nodup := by
    simp only [List.Nodup, List.pairwise_map, ne_eq, suffixed_name_inj, Prod.mk.injEq]
  rw [note_names, nodup_named_iff, hsuffixed]
  simp only [slug_key, suffixed_name, Prod.mk.injEq, ne_eq]
  constructor
  · rintro ⟨hshort, htitles⟩
    exact ⟨hshort, htitles⟩
  · intro h
    exact ⟨h.short_ids, h.titles⟩

end Names

section Vault

variable {deps : ExportDeps} {r : Registry} {build_seq : Nat} {kb_version : String}

theorem nodup_loaded_keys (hids : (r.artifacts.map (·.artifact_id)).Nodup) (hstr : deps.platform.str_uuid.Injective) :
    ((load_artifacts deps r build_seq).map (artifact_key deps)).Nodup := by
  have hkeys : (r.artifacts.map (artifact_key deps)).Nodup := by
    have hmap := hids.map hstr
    rwa [List.map_map] at hmap
  exact nodup_map_sorted (hkeys.sublist (List.filter_sublist.map _))

/-- The sources apart, the notes are those of the loop that assigns the slugs. -/
theorem get?_export_notes {β : Type} (g : Note → β)
    (hg : ∀ note source_uri, g { note with source_uri := source_uri } = g note) (key : String) :
    ((export_notes deps r build_seq).get? key).map g =
      ((assign_slugs deps (load_artifacts deps r build_seq)).get? key).map g :=
  get?_fill_source_uris r g hg _ key

/-- Every artifact's note, under its name. -/
theorem get?_note {g : Note → String} (hg : ∀ note source_uri, g { note with source_uri := source_uri } = g note)
    (hkeys : ((load_artifacts deps r build_seq).map (artifact_key deps)).Nodup)
    {entry : KnowledgeArtifact × (String × String)} (h : entry ∈ note_names deps (load_artifacts deps r build_seq)) :
    ((export_notes deps r build_seq).get? (artifact_key deps entry.1)).map g =
      some (g (note_of deps entry.2.2 entry.1)) := by
  have hentry : (artifact_key deps entry.1, note_of deps entry.2.2 entry.1) ∈
      assign_slugs deps (load_artifacts deps r build_seq) := by
    rw [assign_slugs_eq hkeys]
    exact List.mem_map_of_mem h
  have hnodup : ((assign_slugs deps (load_artifacts deps r build_seq)).map (·.1)).Nodup := by
    rw [assign_slugs_eq hkeys, List.map_map]
    rw [← map_fst_named (slug_key deps) (suffixed_name deps) [] (load_artifacts deps r build_seq), List.map_map] at hkeys
    exact hkeys
  rw [get?_export_notes g hg, Dict.get?_of_mem hnodup hentry, Option.map_some]

/-- The notes that are written have the names of the artifacts, in order. -/
theorem written_paths (hkeys : ((load_artifacts deps r build_seq).map (artifact_key deps)).Nodup) :
    (written_notes deps r build_seq).map note_path =
      ((note_names deps (load_artifacts deps r build_seq)).map (·.2)).map name_path := by
  have hartifacts := map_fst_named (slug_key deps) (suffixed_name deps) [] (load_artifacts deps r build_seq)
  have hnotes : ∀ entry ∈ note_names deps (load_artifacts deps r build_seq),
      ((export_notes deps r build_seq).get? (artifact_key deps entry.1)).map note_path = some (name_path entry.2) := by
    intro entry hentry
    rw [get?_note (fun _ _ => rfl) hkeys hentry, note_path_note_of hentry]
  calc (written_notes deps r build_seq).map note_path
      = (load_artifacts deps r build_seq).filterMap fun artifact =>
          ((export_notes deps r build_seq).get? (artifact_key deps artifact)).map note_path := List.map_filterMap
    _ = (note_names deps (load_artifacts deps r build_seq)).filterMap fun entry =>
          ((export_notes deps r build_seq).get? (artifact_key deps entry.1)).map note_path := by
        conv_lhs => rw [← hartifacts]
        exact List.filterMap_map
    _ = (note_names deps (load_artifacts deps r build_seq)).filterMap fun entry => some (name_path entry.2) :=
        List.filterMap_congr hnotes
    _ = ((note_names deps (load_artifacts deps r build_seq)).map (·.2)).map name_path := by
        rw [List.filterMap_eq_map', List.map_map]
        rfl

theorem length_written_notes (hkeys : ((load_artifacts deps r build_seq).map (artifact_key deps)).Nodup) :
    (written_notes deps r build_seq).length = (load_artifacts deps r build_seq).length := by
  have hlength := congrArg List.length (written_paths (r := r) hkeys)
  have hartifacts := congrArg List.length
    (map_fst_named (slug_key deps) (suffixed_name deps) [] (load_artifacts deps r build_seq))
  rw [List.length_map, List.length_map, List.length_map] at hlength
  rw [List.length_map] at hartifacts
  exact hlength.trans hartifacts

private theorem note_path_ne_index (note : Note) : note_path note ≠ "index.md" := by
  intro heq
  have hslash : '/' ∈ (note_path note).toList := by simp [note_path, link_target, String.toList_append]
  rw [heq] at hslash
  exact absurd hslash (by decide)

/-- Where the paths are distinct, the vault holds every note's text and the index. -/
private theorem export_eq_of_nodup (hpaths : ((written_notes deps r build_seq).map note_path).Nodup) :
    export_obsidian deps r build_seq kb_version =
      ((written_notes deps r build_seq).map fun note => (note_path note, rendered_note deps r build_seq note)) ++
        [("index.md", render_index deps.nfkd (export_result deps r build_seq) kb_version)] := by
  have hfiles : note_files deps r build_seq =
      (written_notes deps r build_seq).map fun note => (note_path note, rendered_note deps r build_seq note) :=
    Dict.foldl_set_eq_map note_path (rendered_note deps r build_seq) hpaths
  have hindex : ((written_notes deps r build_seq).map fun note =>
      (note_path note, rendered_note deps r build_seq note)).any (·.1 == "index.md") = false := by
    rw [List.any_eq_false]
    intro entry hentry
    obtain ⟨note, -, rfl⟩ := List.mem_map.1 hentry
    simpa using note_path_ne_index note
  rw [export_obsidian, hfiles, Dict.set, if_neg (by rw [hindex]; exact Bool.false_ne_true)]

private theorem mem_written_notes {artifact_id : String} {note : Note}
    (hkeys : ((load_artifacts deps r build_seq).map (artifact_key deps)).Nodup)
    (h : (export_notes deps r build_seq).get? artifact_id = some note) :
    note.artifact_id = artifact_id ∧ note ∈ written_notes deps r build_seq := by
  have hassigned : ((export_notes deps r build_seq).get? artifact_id).map (·.artifact_id) =
      ((assign_slugs deps (load_artifacts deps r build_seq)).get? artifact_id).map (·.artifact_id) :=
    get?_export_notes (·.artifact_id) (fun _ _ => rfl) artifact_id
  rw [h, Option.map_some] at hassigned
  obtain ⟨old, hold, hid⟩ := Option.map_eq_some_iff.1 hassigned.symm
  have hentry := Dict.mem_of_get? hold
  rw [assign_slugs_eq hkeys] at hentry
  obtain ⟨entry, hmem, heq⟩ := List.mem_map.1 hentry
  obtain ⟨hkey, rfl⟩ := Prod.mk.inj heq
  refine ⟨hid.symm.trans hkey, ?_⟩
  rw [written_notes, List.mem_filterMap]
  refine ⟨entry.1, ?_, hkey ▸ h⟩
  rw [← map_fst_named (slug_key deps) (suffixed_name deps) [] (load_artifacts deps r build_seq)]
  exact List.mem_map_of_mem hmem

/-- The exported notes keep apart exactly when the suffixes are fresh. -/
theorem exported_notes_apart_iff (hids : (r.artifacts.map (·.artifact_id)).Nodup)
    (hstr : deps.platform.str_uuid.Injective) (hslash : ∀ id, '/' ∉ (deps.platform.str_uuid id).toList) :
    NotesApart deps r build_seq kb_version ↔ SuffixesFresh deps (load_artifacts deps r build_seq) := by
  have hkeys : ((load_artifacts deps r build_seq).map (artifact_key deps)).Nodup := nodup_loaded_keys hids hstr
  rw [← nodup_note_names_iff]
  constructor
  · intro h
    have hpaths := h.paths
    rw [written_paths hkeys] at hpaths
    exact hpaths.of_map
  · intro hnames
    have hpaths : ((written_notes deps r build_seq).map note_path).Nodup := by
      rw [written_paths hkeys]
      apply List.Nodup.map_on _ hnames
      intro other hother name hname heq
      obtain ⟨entry, hentry, rfl⟩ := List.mem_map.1 hname
      obtain ⟨hfolder, hslug⟩ := slash_not_mem_name hslash hentry
      exact name_path_inj hfolder hslug heq
    have hexport : export_obsidian deps r build_seq kb_version = _ := export_eq_of_nodup hpaths
    refine ⟨hpaths, ?_, ?_, ?_⟩
    · rw [hexport, List.length_append, List.length_map, length_written_notes hkeys, List.length_singleton]
    · intro artifact hartifact
      rw [← map_fst_named (slug_key deps) (suffixed_name deps) [] (load_artifacts deps r build_seq)] at hartifact
      obtain ⟨entry, hentry, rfl⟩ := List.mem_map.1 hartifact
      obtain ⟨note, hnote, -⟩ := Option.map_eq_some_iff.1
        (get?_note (g := Note.artifact_id) (fun _ _ => rfl) hkeys hentry)
      exact ⟨note, hnote⟩
    · intro artifact_id note hnote
      obtain ⟨hid, hwritten⟩ := mem_written_notes hkeys hnote
      refine ⟨hid, ?_⟩
      have hentry : (note_path note, rendered_note deps r build_seq note) ∈
          (written_notes deps r build_seq).map fun note => (note_path note, rendered_note deps r build_seq note) :=
        List.mem_map_of_mem hwritten
      have hnodup : (((written_notes deps r build_seq).map fun note =>
          (note_path note, rendered_note deps r build_seq note)).map (·.1)).Nodup := by
        rw [List.map_map]
        exact hpaths
      rw [hexport, Dict.get?_append, ← note_path, Dict.get?_of_mem hnodup hentry]
      rfl

/-- Two concepts of one title, and one whose title is the first group of the second's id behind it. -/
private def clash : Registry where
  artifacts := [concept 1 "Foo", concept 2 "Foo", concept 3 "Foo 3f2a9c10"]
where
  concept (artifact_id : Uuid) (title : String) : KnowledgeArtifact :=
    { artifact_id, artifact_type := .concept, source_id := 1, title := some title, body_text := none,
      content_hash := none, kb_version := "v1", knowledge_kind := none, acl_teams := [], created_at := 0,
      valid_from_seq := 1 }

private def export_deps (str_uuid : Uuid → String) : ExportDeps where
  platform := { Platform.plain with str_uuid }
  nfkd text := text
  artifact_order a b :=
    if a.title = b.title then decide (a.artifact_id ≤ b.artifact_id) else str_le (a.title.getD "") (b.title.getD "")
  edge_order a b := decide (a.edge_id ≤ b.edge_id)

private def clash_uuid (id : Uuid) : String :=
  if id = 1 then "1c51e0aa-02d4-4b07-8e6f-19c2d54a7701"
  else if id = 2 then "3f2a9c10-6f5e-4c55-9a53-0d8f1f7d2b01"
  else "8c51e0aa-02d4-4b07-8e6f-19c2d54a770" ++ toString id

theorem numbered_notes_apart : NotesApart (export_deps Platform.plain.str_uuid) clash 1 "v1" := by
  apply (exported_notes_apart_iff (by decide) ContextBroker.str_uuid_plain_injective _).2
  · exact ⟨by decide +kernel, by decide +kernel⟩
  · intro id hslash
    have htext : (Platform.plain.str_uuid id).toList = Nat.toDigits 10 id := by
      rw [← String.toList_ofList (l := Nat.toDigits 10 id), ← Nat.repr_eq_ofList_toDigits]
      rfl
    have hmem : '/' ∈ Nat.toDigits 10 id := htext ▸ hslash
    exact absurd (Nat.isDigit_of_mem_toDigits (by decide) (by decide) hmem) (by decide)

private theorem clash_paths : (written_notes (export_deps clash_uuid) clash 1).map note_path =
    ["concepts/foo.md", "concepts/foo-3f2a9c10.md", "concepts/foo-3f2a9c10.md"] := by
  decide +kernel

theorem suffixed_slug_overwrites : ¬NotesApart (export_deps clash_uuid) clash 1 "v1" := by
  intro h
  have hpaths := h.paths
  rw [clash_paths] at hpaths
  exact absurd hpaths (by decide +kernel)

end Vault

end AgenticKb

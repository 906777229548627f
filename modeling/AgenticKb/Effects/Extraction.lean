import AgenticKb.Effects.Sources
import AgenticKb.Lib.Run

open AgenticKb.Lib

namespace AgenticKb

/-- A row an extraction of build `n` wrote for a source at a content hash: live, introduced by the
build, no alias, and with the access list its writer computed. -/
structure Extracted (n : Nat) (source_id : Uuid) (hash : String) (a : KnowledgeArtifact) : Prop where
  introduced : a.IntroducedBy n
  source_id : a.source_id = source_id
  made_from : a.made_from = some hash
  not_alias : a.artifact_type ≠ .alias_reference
  acl : a.acl_teams = a.acl_at_write

theorem DocArtifactType.artifact_type_ne_alias (t : DocArtifactType) :
    t.artifact_type ≠ .alias_reference := by
  cases t <;> simp [DocArtifactType.artifact_type]

theorem DocArtifactType.artifact_type_ne_commit (t : DocArtifactType) : t.artifact_type ≠ .commit := by
  cases t <;> simp [DocArtifactType.artifact_type]

theorem CodeArtifactType.artifact_type_ne_commit (t : CodeArtifactType) : t.artifact_type ≠ .commit := by
  cases t <;> simp [CodeArtifactType.artifact_type]

theorem CodeArtifactType.artifact_type_ne_alias (t : CodeArtifactType) :
    t.artifact_type ≠ .alias_reference := by
  cases t <;> simp [CodeArtifactType.artifact_type]

/-- `added` are the artifacts that came in between two registries, and nothing else changed but the
number of ids drawn. -/
structure Appended (r r' : Registry) (added : List KnowledgeArtifact) : Prop where
  artifacts : r'.artifacts = r.artifacts ++ added
  source_items : r'.source_items = r.source_items
  edges : r'.edges = r.edges
  build_seq : r'.build_seq = r.build_seq
  uuids : r.uuids ≤ r'.uuids

theorem Appended.sameCore {r r' r'' : Registry} {added : List KnowledgeArtifact}
    (h : Appended r r' added) (hsame : SameCore r' r'') : Appended r r'' added :=
  ⟨hsame.artifacts.trans h.artifacts, hsame.source_items.trans h.source_items,
    hsame.edges.trans h.edges, hsame.build_seq.trans h.build_seq, hsame.uuids ▸ h.uuids⟩

/-- What every writer of extracted artifacts does: it appends its rows, one for each draft, of its own types. -/
structure WritesExtracted (p : Platform) (r : Registry) (source_id : Uuid) (hash : String) (count : Nat)
    (own : ArtifactType → Prop) (result : Registry × List Uuid) : Prop where
  appended : ∃ added, Appended r result.1 added ∧ result.2 = added.map (·.artifact_id) ∧
    added.length = count ∧ (∀ a ∈ added, Extracted r.build_seq source_id hash a) ∧ ∀ a ∈ added, own a.artifact_type
  wellFormed : WellFormed p r → Function.Injective p.gen_random_uuid → WellFormed p result.1

private theorem writes_extracted {p : Platform} {r : Registry} {source_id : Uuid} {hash : String}
    {count : Nat} {own : ArtifactType → Prop} {rows : List (Uuid → KnowledgeArtifact)} (hcount : rows.length = count)
    (hid : ∀ row ∈ rows, ∀ id, (row id).artifact_id = id)
    (hrow : ∀ row ∈ rows, ∀ id, Extracted r.build_seq source_id hash (row id))
    (hown : ∀ row ∈ rows, ∀ id, own (row id).artifact_type) :
    WritesExtracted p r source_id hash count own (r.add_artifacts p rows) := by
  obtain ⟨added, heq, hids, hmem⟩ := add_artifacts_spec p r hid
  constructor
  · rw [heq]
    refine ⟨added, ⟨rfl, rfl, rfl, rfl, Nat.le_add_right _ _⟩, rfl, ?_, ?_, ?_⟩
    · rw [← hcount]
      simpa using congrArg List.length hids
    · intro a ha
      obtain ⟨row, hrow', id, rfl⟩ := hmem a ha
      exact hrow row hrow' id
    · intro a ha
      obtain ⟨row, hrow', id, rfl⟩ := hmem a ha
      exact hown row hrow' id
  · exact fun hwf hinj => hwf.add_artifacts hinj hid fun row hr id => (hrow row hr id).introduced

theorem writesExtracted_write_doc_artifacts (p : Platform) (r : Registry) (source : Uuid × String)
    (kb_version : String) (acl_teams : List String) (drafts : List DocArtifactDraft) :
    WritesExtracted p r source.1 source.2 drafts.length (· ≠ .commit)
      (write_doc_artifacts p r source kb_version r.build_seq acl_teams drafts) := by
  refine writes_extracted (List.length_map _) (by simp) ?_ ?_
  · simp only [List.mem_map, forall_exists_index, and_imp, forall_apply_eq_imp_iff₂]
    exact fun draft _ id => ⟨⟨rfl, rfl⟩, rfl, rfl, draft.artifact_type.artifact_type_ne_alias, rfl⟩
  · simp only [List.mem_map, forall_exists_index, and_imp, forall_apply_eq_imp_iff₂]
    exact fun draft _ _ => draft.artifact_type.artifact_type_ne_commit

theorem writesExtracted_write_commit_artifact (p : Platform) (r : Registry) (source : Uuid × String)
    (kb_version title body_text : String) (changed_files : List String) (repo : Option String) :
    WritesExtracted p r source.1 source.2 1 (· = .commit)
      (write_commit_artifact p r source kb_version r.build_seq title body_text changed_files repo) := by
  refine writes_extracted (List.length_singleton) (by simp) ?_ ?_
  · simp only [List.mem_singleton, forall_eq]
    exact fun id => ⟨⟨rfl, rfl⟩, rfl, rfl, by simp, rfl⟩
  · simp only [List.mem_singleton, forall_eq]
    exact fun _ => trivial

/-- The registry half of `write_code_artifacts`. -/
theorem writesExtracted_write_code_artifacts (p : Platform) (r : Registry) (source : Uuid × String)
    (kb_version : String) (acl_teams : List String) (drafts : List CodeArtifactDraft) :
    ∃ ids, WritesExtracted p r source.1 source.2 drafts.length (· ≠ .commit)
        ((write_code_artifacts p r source kb_version r.build_seq acl_teams drafts).1, ids) ∧
      (write_code_artifacts p r source kb_version r.build_seq acl_teams drafts).2 =
        ((drafts.map (·.key)).zip ids).foldl (fun key_to_id (key, id) => Dict.set key_to_id key id) [] := by
  refine ⟨_, writes_extracted (List.length_map _) (by simp) ?_ ?_, rfl⟩
  · simp only [List.mem_map, forall_exists_index, and_imp, forall_apply_eq_imp_iff₂]
    exact fun draft _ id => ⟨⟨rfl, rfl⟩, rfl, rfl, draft.artifact_type.artifact_type_ne_alias, rfl⟩
  · simp only [List.mem_map, forall_exists_index, and_imp, forall_apply_eq_imp_iff₂]
    exact fun draft _ _ => draft.artifact_type.artifact_type_ne_commit

section Caches

variable {p : Platform} {b : Build} {r r' : Registry}

theorem sameCore_generation_record {cache_key input_hash : String} {ids : List Uuid}
    (h : GenerationCacheGate.record r cache_key input_hash ids = some r') : SameCore r r' := by
  simp only [GenerationCacheGate.record, Option.bind_eq_bind, Option.bind_eq_some_iff,
    Option.some.injEq] at h
  obtain ⟨rows, -, rfl⟩ := h
  exact ⟨rfl, rfl, rfl, rfl, rfl⟩

theorem sameCore_embed_gated {id : Uuid} (h : embed_gated p b r id = some r') : SameCore r r' := by
  unfold embed_gated at h
  split at h
  · exact Option.some.inj h ▸ .refl r
  · dsimp only at h
    split at h
    · exact Option.some.inj h ▸ .refl r
    · simp only [Option.bind_eq_bind, Option.bind_eq_some_iff, Option.some.injEq] at h
      obtain ⟨result, -, rfl⟩ := h
      exact ⟨rfl, rfl, rfl, rfl, rfl⟩

/-- Embedding and indexing touch caches only. -/
theorem sameCore_embed_and_index {ids : List Uuid} (h : embed_and_index p b r ids = some r') :
    SameCore r r' := by
  simp only [embed_and_index, Option.bind_eq_bind, Option.bind_eq_some_iff] at h
  obtain ⟨mid, hmid, h⟩ := h
  have hsame : SameCore r mid :=
    foldlM_invariant (I := SameCore r) (fun _ _ _ _ hs hstep => hs.trans (sameCore_embed_gated hstep))
      (.refl r) hmid
  split at h
  · exact Option.some.inj h ▸ hsame
  · simp at h

end Caches

/-- A changed source was processed: its row was advanced, and the artifacts of its extraction were
appended. -/
structure Processed (p : Platform) (r r' : Registry) (fetched : NormalizedContent) (id : Uuid)
    (added : List KnowledgeArtifact) : Prop where
  advanced : Advanced r r' fetched id
  artifacts : r'.artifacts = r.artifacts ++ added
  extracted : ∀ a ∈ added, Extracted r.build_seq id fetched.content_hash a
  /-- Commits are written for the git log only. -/
  commits : ∀ a ∈ added, a.artifact_type = .commit → fetched.source.source_type = .git_metadata
  edges : r'.edges = r.edges
  build_seq : r'.build_seq = r.build_seq
  wellFormed : WellFormed p r'

section Process

variable {p : Platform} {b : Build} {r r' : Registry} {fetched : NormalizedContent} {id : Uuid}

/-- The advanced row depends on the source table alone. -/
private theorem Advanced.congr {mid : Registry} (h : Advanced r mid fetched id)
    (hs : r'.source_items = mid.source_items) : Advanced r r' fetched id :=
  ⟨hs ▸ h.row, fun s hne => by rw [hs]; exact h.others s hne, h.prior, hs ▸ h.persist⟩

/-- Advancing the row, appending artifacts and filling caches processes the source. -/
private theorem processed_of_appended {mid : Registry} {added : List KnowledgeArtifact}
    (hwf : WellFormed p r) (happ : Appended (upsert_source_item p r fetched).1 mid added)
    (hmid : WellFormed p mid) (hsame : SameCore mid r')
    (hext : ∀ a ∈ added, Extracted r.build_seq (upsert_source_item p r fetched).2 fetched.content_hash a)
    (hcommits : ∀ a ∈ added, a.artifact_type = .commit → fetched.source.source_type = .git_metadata) :
    Processed p r r' fetched (upsert_source_item p r fetched).2 added := by
  have honly := onlySources_upsert_source_item p r fetched
  have happ' := happ.sameCore hsame
  exact
    { advanced := (advanced_upsert_source_item _ hwf).congr happ'.source_items
      artifacts := by rw [happ'.artifacts, honly.artifacts]
      extracted := hext
      commits := hcommits
      edges := happ'.edges.trans honly.edges
      build_seq := happ'.build_seq.trans honly.build_seq
      wellFormed := hmid.of_sameCore hsame }

/-- A commit gets exactly one artifact. -/
theorem processed_commit_source (hwf : WellFormed p r) (hinj : Function.Injective p.gen_random_uuid)
    (hgit : fetched.source.source_type = .git_metadata)
    (h : process_commit_source p b r fetched = some (r', id)) :
    ∃ a, Processed p r r' fetched id [a] := by
  simp only [process_commit_source, Option.bind_eq_bind, Option.bind_eq_some_iff, Option.some.injEq,
    Prod.mk.injEq] at h
  obtain ⟨mid, hembed, rfl, rfl⟩ := h
  have honly := onlySources_upsert_source_item p r fetched
  obtain ⟨⟨added, happ, -, hlen, hext, -⟩, hwrite⟩ :=
    writesExtracted_write_commit_artifact p (upsert_source_item p r fetched).1
      ((upsert_source_item p r fetched).2, fetched.content_hash) b.kb_version
      (if take_chars fetched.source.source_version 12 = "" then fetched.source.source_version
        else take_chars fetched.source.source_version 12) fetched.text
      (parse_changed_files p.unicode fetched.text) fetched.source.repo
  obtain ⟨a, rfl⟩ := List.length_eq_one_iff.1 hlen
  exact ⟨a, processed_of_appended hwf happ (hwrite (hwf.upsert_source_item _ hinj) hinj)
    (sameCore_embed_and_index hembed) (fun a ha => honly.build_seq ▸ hext a ha) fun _ _ _ => hgit⟩

/-- On a cache miss a document gets one artifact for each draft, on a hit none. -/
theorem processed_docify_gated (hwf : WellFormed p r) (hinj : Function.Injective p.gen_random_uuid)
    {mid : Registry} {ids : List Uuid}
    (h : docify_gated p cached_generation b (upsert_source_item p r fetched).1 fetched
      (upsert_source_item p r fetched).2 = some (mid, ids)) (hsame : SameCore mid r') :
    ∃ added, Processed p r r' fetched (upsert_source_item p r fetched).2 added ∧
      (cached_generation.lookup (upsert_source_item p r fetched).1 (generation_key p b fetched) = none →
        ∃ drafts, b.extract fetched = some drafts ∧ added.length = drafts.length) := by
  have honly := onlySources_upsert_source_item p r fetched
  unfold docify_gated at h
  split at h
  · rename_i hit hlookup
    simp only [Option.some.injEq, Prod.mk.injEq] at h
    obtain ⟨rfl, rfl⟩ := h
    refine ⟨[], ?_, fun hnone => by simp [hnone] at hlookup⟩
    exact processed_of_appended hwf ⟨by simp, rfl, rfl, rfl, le_rfl⟩ (hwf.upsert_source_item _ hinj) hsame
      (by simp) (by simp)
  · simp only [Option.bind_eq_bind, Option.bind_eq_some_iff, Option.some.injEq, Prod.mk.injEq] at h
    obtain ⟨drafts, hdrafts, recorded, hrecord, rfl, rfl⟩ := h
    obtain ⟨⟨added, happ, -, hlen, hext, hown⟩, hwrite⟩ :=
      writesExtracted_write_doc_artifacts p (upsert_source_item p r fetched).1
        ((upsert_source_item p r fetched).2, fetched.content_hash) b.kb_version
        fetched.source.acl_teams drafts
    refine ⟨added, ?_, fun _ => ⟨drafts, hdrafts, hlen⟩⟩
    exact processed_of_appended hwf happ (hwrite (hwf.upsert_source_item _ hinj) hinj)
      ((sameCore_generation_record hrecord).trans hsame) (fun a ha => honly.build_seq ▸ hext a ha)
      fun a ha htype => absurd htype (hown a ha)

/-- Processing a changed source advances its row and appends its extraction. The extraction is not
empty for a commit, nor for a document whose lookup misses and whose extractor finds something. -/
theorem processed_changed_source (hwf : WellFormed p r) (hinj : Function.Injective p.gen_random_uuid)
    (h : process_changed_source p cached_generation b r fetched = some (r', id)) :
    ∃ added, Processed p r r' fetched id added ∧
      (fetched.source.source_type = .git_metadata ∨
          cached_generation.lookup (upsert_source_item p r fetched).1 (generation_key p b fetched) =
            none ∧ b.extract fetched ≠ some [] → added ≠ []) := by
  unfold process_changed_source at h
  split at h
  · rename_i htype
    obtain ⟨a, ha⟩ := processed_commit_source hwf hinj (by simpa using htype) h
    exact ⟨[a], ha, by simp⟩
  · rename_i htype
    simp only [Option.bind_eq_bind, Option.bind_eq_some_iff, Option.some.injEq, Prod.mk.injEq,
      Prod.exists] at h
    obtain ⟨mid, ids, hdocify, indexed, hembed, rfl, rfl⟩ := h
    obtain ⟨added, hadded, hdrafts⟩ :=
      processed_docify_gated hwf hinj hdocify (sameCore_embed_and_index hembed)
    refine ⟨added, hadded, ?_⟩
    rintro (hcommit | ⟨hmiss, hne⟩)
    · simp [hcommit] at htype
    · obtain ⟨drafts, hextract, hlen⟩ := hdrafts hmiss
      rintro rfl
      have hnil : drafts = [] := List.length_eq_zero_iff.1 hlen.symm
      exact hne (hnil ▸ hextract)

end Process

end AgenticKb

import AgenticKb.Effects.Build
import AgenticKb.Indexing.Projection

open AgenticKb.Lib

namespace AgenticKb

/-- What the index should hold: every document the registry projects, under its id. -/
def projection (p : Platform) (r : Registry) : SearchIndex :=
  (load_search_docs p r none).map fun doc => (doc.artifact_id, doc)

/-- A document the index holds at the hash of its artifact is the one projected for it. -/
def HashesFaithful (p : Platform) (r : Registry) (index : SearchIndex) : Prop :=
  ∀ entry ∈ projection p r, ∀ doc ∈ index.get? entry.1,
    doc.artifact_hash = entry.2.artifact_hash → doc = entry.2

instance (p : Platform) (r : Registry) (index : SearchIndex) : Decidable (HashesFaithful p r index) :=
  inferInstanceAs (Decidable (∀ entry ∈ projection p r, ∀ doc ∈ _, _ → _))

/-- The index holds, id by id, what is projected. -/
def Projects (p : Platform) (r : Registry) (index : SearchIndex) : Prop :=
  ∀ id, index.get? id = (projection p r).get? id

section Projection

variable {p : Platform} {r : Registry}

/-- The documents of some artifacts are those of all, cut down. -/
theorem load_search_docs_some (ids : List Uuid) :
    load_search_docs p r (some ids) = (load_search_docs p r none).filter fun doc => ids.contains doc.artifact_id := by
  simp only [load_search_docs, Option.all_some, Option.all_none, List.filter_true, List.filter_map]
  rfl

/-- Ids and hashes are read off the projection. -/
theorem load_doc_hashes_eq :
    load_doc_hashes r = (projection p r).map fun entry => (entry.1, entry.2.artifact_hash) := by
  simp only [load_doc_hashes, projection, load_search_docs, Option.all_none, List.filter_true, List.map_map]
  rfl

private theorem joined_ids_sublist (artifacts : List KnowledgeArtifact) :
    ((artifacts.filterMap fun a => (r.source_of a.source_id).map fun s => (a, s)).map
      (·.1.artifact_id)).Sublist (artifacts.map (·.artifact_id)) := by
  induction artifacts with
  | nil => simp
  | cons a artifacts ih =>
    rw [List.filterMap_cons]
    split
    · exact ih.cons _
    · rename_i entry hentry
      obtain ⟨s, -, rfl⟩ := Option.map_eq_some_iff.1 hentry
      exact ih.cons_cons _

/-- Ids are projected once. -/
theorem nodup_projection (hids : (r.artifacts.map (·.artifact_id)).Nodup) :
    ((projection p r).map (·.1)).Nodup := by
  have hkeys : (projection p r).map (·.1) = (r.joined.filter projectable).map (·.1.artifact_id) := by
    simp only [projection, load_search_docs, Option.all_none, List.filter_true, List.map_map]
    rfl
  rw [hkeys]
  exact ((List.filter_sublist.map _).trans (joined_ids_sublist r.artifacts)).nodup hids

theorem projection_artifact_id {entry : Uuid × SearchDoc} (h : entry ∈ projection p r) :
    entry.2.artifact_id = entry.1 := by
  obtain ⟨doc, -, rfl⟩ := List.mem_map.1 h
  rfl

end Projection

section Upsert

variable {index : SearchIndex} {docs : List SearchDoc}

/-- An id that is not upserted keeps what it has. -/
theorem get?_upsert_docs_of_forall_ne {id : Uuid} (h : ∀ doc ∈ docs, doc.artifact_id ≠ id) :
    Dict.get? (upsert_docs index docs) id = index.get? id := by
  refine foldl_invariant (I := fun index' : SearchIndex => index'.get? id = index.get? id) ?_ rfl
  intro index' doc hdoc hsame
  rw [Dict.get?_set, if_neg (h doc hdoc).symm, hsame]

/-- An upserted document is there, if no other comes in under its id. -/
theorem get?_upsert_docs_of_mem {doc : SearchDoc} (hdoc : doc ∈ docs)
    (honly : ∀ doc' ∈ docs, doc'.artifact_id = doc.artifact_id → doc' = doc) :
    Dict.get? (upsert_docs index docs) doc.artifact_id = some doc := by
  obtain ⟨before, after, rfl⟩ := List.append_of_mem hdoc
  simp only [upsert_docs, List.foldl_append, List.foldl_cons]
  refine foldl_invariant (I := fun index' : SearchIndex => index'.get? doc.artifact_id = some doc) ?_
    (by rw [Dict.get?_set, if_pos rfl])
  intro index' doc' hdoc' hsame
  rw [Dict.get?_set]
  split
  · rename_i hid
    rw [honly doc' (by simp [hdoc']) hid.symm]
  · exact hsame

end Upsert

section Reconcile

variable {p : Platform} {r : Registry} {index : SearchIndex}

/-- An orphan is deleted, any other document stays. -/
theorem get?_delete_orphaned (id : Uuid) :
    Dict.get? (delete_orphaned r index) id =
      if (projection p r).any (·.1 == id) then index.get? id else none := by
  have hany : ∀ doc_id, (load_doc_hashes r).any (·.1 == doc_id) = (projection p r).any (·.1 == doc_id) := by
    intro doc_id
    rw [load_doc_hashes_eq (p := p), List.any_map]
    rfl
  simp only [delete_orphaned, ← hany]
  exact Dict.get?_filter (q := fun doc_id => (load_doc_hashes r).any (·.1 == doc_id))

/-- What is back-filled is missing, or held at another hash. -/
theorem mem_stale_doc_ids (index : SearchIndex) (hids : (r.artifacts.map (·.artifact_id)).Nodup) {entry : Uuid × SearchDoc}
    (h : entry ∈ projection p r) :
    entry.1 ∈ stale_doc_ids r index ↔ (index.get? entry.1).map (·.artifact_hash) ≠ some entry.2.artifact_hash := by
  have hstate : (index_state index).get? entry.1 = (index.get? entry.1).map (·.artifact_hash) := Dict.get?_map
  simp only [stale_doc_ids, load_doc_hashes_eq (p := p), List.mem_map, List.mem_filter, bne_iff_ne, ne_eq]
  constructor
  · rintro ⟨hash, ⟨⟨entry', hentry', rfl⟩, hstale⟩, hid⟩
    rw [eq_of_key_eq (nodup_projection hids) hentry' h hid] at hstale
    rwa [hstate] at hstale
  · exact fun hstale => ⟨_, ⟨⟨entry, h, rfl⟩, by rwa [hstate]⟩, rfl⟩

/-- A projected document comes in unless the index holds one at its hash; then that one stays. -/
theorem get?_reconcile_index (hids : (r.artifacts.map (·.artifact_id)).Nodup) {entry : Uuid × SearchDoc}
    (h : entry ∈ projection p r) :
    Dict.get? (reconcile_index p r index) entry.1 =
      if (index.get? entry.1).map (·.artifact_hash) = some entry.2.artifact_hash then index.get? entry.1
      else some entry.2 := by
  have hkept : Dict.get? (delete_orphaned r index) entry.1 = index.get? entry.1 := by
    rw [get?_delete_orphaned (p := p), if_pos (List.any_eq_true.2 ⟨entry, h, by simp⟩)]
  have hid := projection_artifact_id h
  have honly : ∀ doc ∈ load_search_docs p r none, doc.artifact_id = entry.1 → doc = entry.2 := by
    intro doc hdoc hid'
    have hmem : (doc.artifact_id, doc) ∈ projection p r := List.mem_map_of_mem hdoc
    exact congrArg Prod.snd (eq_of_key_eq (nodup_projection hids) hmem h hid')
  have hstale := mem_stale_doc_ids (delete_orphaned r index) hids h
  rw [hkept] at hstale
  simp only [reconcile_index, reconcile_missing, load_search_docs_some]
  split
  · rename_i hheld
    rw [← hkept]
    refine get?_upsert_docs_of_forall_ne fun doc hdoc hid' => ?_
    simp only [List.mem_filter, List.contains_iff_mem] at hdoc
    exact hstale.1 (hid' ▸ hdoc.2) hheld
  · rename_i hmissing
    have hdoc : entry.2 ∈ (load_search_docs p r none).filter fun doc =>
        (stale_doc_ids r (delete_orphaned r index)).contains doc.artifact_id := by
      obtain ⟨doc, hdoc, rfl⟩ := List.mem_map.1 h
      simp only [List.mem_filter, List.contains_iff_mem]
      exact ⟨hdoc, hstale.2 hmissing⟩
    rw [← hid]
    refine get?_upsert_docs_of_mem hdoc fun doc' hdoc' hid' => ?_
    exact honly doc' (List.mem_of_mem_filter hdoc') (hid'.trans hid)

/-- Nothing is left under an id that is not projected. -/
theorem get?_reconcile_index_of_forall_ne {id : Uuid} (h : ∀ entry ∈ projection p r, entry.1 ≠ id) :
    Dict.get? (reconcile_index p r index) id = none := by
  have hnone : (projection p r).any (·.1 == id) = false := by simpa using h
  simp only [reconcile_index, reconcile_missing]
  rw [get?_upsert_docs_of_forall_ne, get?_delete_orphaned (p := p), hnone, if_neg (by simp)]
  intro doc hdoc
  rw [load_search_docs_some] at hdoc
  exact h (doc.artifact_id, doc) (List.mem_map_of_mem (List.mem_of_mem_filter hdoc))

/-- The reconciled index is the projection if and only if no document hides behind a hash it shares with
its artifact. -/
theorem reconcile_index_projects_iff (hids : (r.artifacts.map (·.artifact_id)).Nodup) :
    Projects p r (reconcile_index p r index) ↔ HashesFaithful p r index := by
  have hfound : ∀ entry ∈ projection p r, (projection p r).get? entry.1 = some entry.2 :=
    fun entry h => Dict.get?_of_mem (nodup_projection hids) h
  constructor
  · intro hprojects entry hentry doc hdoc hhash
    have hid := hprojects entry.1
    rw [hfound entry hentry, get?_reconcile_index hids hentry, show index.get? entry.1 = some doc from hdoc,
      Option.map_some, hhash, if_pos rfl] at hid
    exact Option.some.inj hid
  · intro hfaithful id
    by_cases hid : ∃ entry ∈ projection p r, entry.1 = id
    · obtain ⟨entry, hentry, rfl⟩ := hid
      rw [hfound entry hentry, get?_reconcile_index hids hentry]
      split
      · rename_i hheld
        obtain ⟨doc, hdoc, hhash⟩ := Option.map_eq_some_iff.1 hheld
        rw [hdoc, hfaithful entry hentry doc hdoc hhash]
      · rfl
    · have hne : ∀ entry ∈ projection p r, entry.1 ≠ id := fun entry hentry heq => hid ⟨entry, hentry, heq⟩
      rw [get?_reconcile_index_of_forall_ne hne]
      cases hget : (projection p r).get? id with
      | none => rfl
      | some doc => exact absurd rfl (hne _ (Dict.mem_of_get? hget))

end Reconcile

section Builds

/-- A build over markdown documents of one repo, none of which is extracted to anything. -/
def doc_build (paths : List String) : Build :=
  { kb_version := "v"
    listing := paths.map fun path =>
      ({ source_type := .github_doc, source_uri := path, source_version := "1", repo := some "r"
         path := some path }, path) }

/-- Of two pages one changes and one goes: the index of the first build, reconciled with the second, loses two documents and
gains one. -/
theorem projects_after_changed_page :
    (reconcile_index .plain (history .plain cached_generation [page_build [("d", "A"), ("e", "C")]]) []).map (·.1) = [2, 4] ∧
    (reconcile_index .plain (history .plain cached_generation
        [page_build [("d", "A"), ("e", "C")], page_build [("d", "B")]])
      (reconcile_index .plain (history .plain cached_generation [page_build [("d", "A"), ("e", "C")]]) [])).map (·.1) = [6] ∧
    Projects .plain (history .plain cached_generation [page_build [("d", "A"), ("e", "C")], page_build [("d", "B")]])
      (reconcile_index .plain (history .plain cached_generation
          [page_build [("d", "A"), ("e", "C")], page_build [("d", "B")]])
        (reconcile_index .plain (history .plain cached_generation [page_build [("d", "A"), ("e", "C")]]) [])) :=
  ⟨by decide +kernel, by decide +kernel, (reconcile_index_projects_iff (by decide +kernel)).2 (by decide +kernel)⟩

/-- A second document of the same name refreshes the body of the alias in place. Its row has no hash, nor
has the indexed document, so that the index keeps the old body. -/
theorem stale_alias_stays_indexed :
    ¬ Projects .plain
      (history .plain cached_generation
        [doc_build ["docs/release-notes.md"], doc_build ["docs/release-notes.md", "guide/release-notes.md"]])
      (reconcile_index .plain
        (history .plain cached_generation
          [doc_build ["docs/release-notes.md"], doc_build ["docs/release-notes.md", "guide/release-notes.md"]])
        (reconcile_index .plain (history .plain cached_generation [doc_build ["docs/release-notes.md"]]) [])) := by
  intro h
  -- the alias is the second row of the registry to be given an id
  have halias := h 2
  revert halias
  decide +kernel

end Builds

end AgenticKb

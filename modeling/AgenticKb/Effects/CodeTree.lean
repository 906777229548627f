import Mathlib.Data.List.Find
import AgenticKb.Effects.Rows
import AgenticKb.Effects.CodeEdges

open AgenticKb.Lib

namespace AgenticKb

/-! What the whole-tree pass writes for the answer of the extractor, row by row: an artifact for each of its
drafts, under the row of the draft's file, and an edge for each of its edges between them. -/

/-- The artifact a draft is written as in build `n`. -/
structure CodeArtifactDraft.Written (n : Nat) (draft : CodeArtifactDraft) (a : KnowledgeArtifact) : Prop where
  introduced : a.IntroducedBy n
  artifact_type : a.artifact_type = draft.artifact_type.artifact_type
  title : a.title = some draft.title
  body_text : a.body_text = draft.body_text.map .text

/-- The draft a key stands for: the last one that has it. -/
def draft_of (drafts : List CodeArtifactDraft) (key : String) : Option CodeArtifactDraft :=
  drafts.reverse.find? fun draft => draft.key == key

section Drafts

variable {p : Platform} {r : Registry} {n : Nat}

private theorem written_of_add_artifacts {source_id : Uuid} {row : CodeArtifactDraft → Uuid → KnowledgeArtifact}
    (hrow : ∀ draft id, (row draft id).artifact_id = id ∧ (row draft id).source_id = source_id ∧
      draft.Written n (row draft id)) (drafts : List CodeArtifactDraft) {key_to_id : Dict String Uuid}
    (hkeys : key_to_id = ((drafts.map (·.key)).zip (r.add_artifacts p (drafts.map row)).2).foldl
      (fun key_to_id entry => Dict.set key_to_id entry.1 entry.2) []) :
    ∃ added, (r.add_artifacts p (drafts.map row)).1.artifacts = r.artifacts ++ added ∧
      (∀ a ∈ added, a.source_id = source_id ∧ ∃ draft ∈ drafts, draft.Written n a) ∧
      (∀ draft ∈ drafts, ∃ a ∈ added, draft.Written n a) ∧ (key_to_id.map (·.1)).Nodup ∧
      ∀ key, (∀ draft, draft_of drafts key = some draft →
          ∃ a ∈ added, draft.Written n a ∧ key_to_id.get? key = some a.artifact_id) ∧
        (draft_of drafts key = none → key_to_id.get? key = none) := by
  set ids := (r.add_artifacts p (drafts.map row)).2 with hids
  have hlen : drafts.length = ids.length := by simp [hids, Registry.add_artifacts]
  have hdrafts : (drafts.zip ids).map Prod.fst = drafts := List.map_fst_zip hlen.le
  have hadded : (r.add_artifacts p (drafts.map row)).1.artifacts =
      r.artifacts ++ (drafts.zip ids).map fun entry => row entry.1 entry.2 := by
    simp only [hids, Registry.add_artifacts, List.zip_map_left, List.map_map, List.length_map, Function.comp_def,
      Prod.map, id]
  have hget : ∀ key, key_to_id.get? key =
      ((drafts.zip ids).reverse.find? fun entry => entry.1.key == key).map Prod.snd := by
    intro key
    rw [hkeys, List.zip_map_left, List.foldl_map]
    have hset : ((drafts.zip ids).foldl (fun (d : Dict String Uuid) entry => d.set entry.1.key entry.2) []).get? key =
        (((drafts.zip ids).reverse.find? fun entry => entry.1.key == key).map Prod.snd).or (Dict.get? [] key) :=
      Dict.get?_foldl_set (fun entry : CodeArtifactDraft × Uuid => entry.1.key) Prod.snd
    simpa [Dict.get?] using hset
  have hlast : ∀ key, draft_of drafts key =
      ((drafts.zip ids).reverse.find? fun entry => entry.1.key == key).map Prod.fst := by
    intro key
    conv_lhs => rw [draft_of, ← hdrafts, ← List.map_reverse, List.find?_map]
    rfl
  refine ⟨_, hadded, ?_, ?_, ?_, fun key => ⟨?_, ?_⟩⟩
  · intro a ha
    obtain ⟨entry, hentry, rfl⟩ := List.mem_map.1 ha
    obtain ⟨-, hsource, hwritten⟩ := hrow entry.1 entry.2
    exact ⟨hsource, entry.1, (List.of_mem_zip hentry).1, hwritten⟩
  · intro draft hdraft
    rw [← hdrafts] at hdraft
    obtain ⟨entry, hentry, rfl⟩ := List.mem_map.1 hdraft
    exact ⟨_, List.mem_map_of_mem hentry, (hrow entry.1 entry.2).2.2⟩
  · rw [hkeys]
    exact foldl_invariant (I := fun d : Dict String Uuid => (List.map Prod.fst d).Nodup)
      (fun _ _ _ hd => Dict.nodup_set hd) List.nodup_nil
  · intro draft hdraft
    rw [hlast] at hdraft
    obtain ⟨entry, hentry, rfl⟩ := Option.map_eq_some_iff.1 hdraft
    obtain ⟨hid, -, hwritten⟩ := hrow entry.1 entry.2
    refine ⟨_, List.mem_map_of_mem (List.mem_reverse.1 (List.mem_of_find?_eq_some hentry)), hwritten, ?_⟩
    rw [hget, hentry, Option.map_some, hid]
  · intro hnone
    rw [hlast, Option.map_eq_none_iff] at hnone
    rw [hget, hnone, Option.map_none]

/-- One row for each draft, and each key with the id of its draft's row. -/
theorem write_code_artifacts_written (p : Platform) (r : Registry) (source : Uuid × String) (kb_version : String)
    (n : Nat) (acl_teams : List String) (drafts : List CodeArtifactDraft) :
    ∃ added, (write_code_artifacts p r source kb_version n acl_teams drafts).1.artifacts = r.artifacts ++ added ∧
      (∀ a ∈ added, a.source_id = source.1 ∧ ∃ draft ∈ drafts, draft.Written n a) ∧
      (∀ draft ∈ drafts, ∃ a ∈ added, draft.Written n a) ∧
      ((write_code_artifacts p r source kb_version n acl_teams drafts).2.map (·.1)).Nodup ∧
      ∀ key, (∀ draft, draft_of drafts key = some draft → ∃ a ∈ added, draft.Written n a ∧
          (write_code_artifacts p r source kb_version n acl_teams drafts).2.get? key = some a.artifact_id) ∧
        (draft_of drafts key = none →
          (write_code_artifacts p r source kb_version n acl_teams drafts).2.get? key = none) := by
  unfold write_code_artifacts
  refine written_of_add_artifacts (fun draft id => ?_) drafts rfl
  exact ⟨rfl, rfl, ⟨rfl, rfl⟩, rfl, rfl, rfl⟩

/-- Under a repo the keys of one file replace those of before. -/
private theorem get?_update_keys {repo key : String} {key_to_id : Dict String Uuid} {key_map : CodeKeyMap}
    (hnodup : (key_to_id.map (·.1)).Nodup) :
    (key_to_id.foldl (fun map entry => Dict.set map (repo, entry.1) entry.2) key_map).get? (repo, key) =
      (key_to_id.get? key).or (key_map.get? (repo, key)) := by
  rw [← Dict.find?_reverse hnodup]
  refine (Dict.get?_foldl_set (fun entry : String × Uuid => (repo, entry.1)) Prod.snd).trans ?_
  congr 2
  refine List.find?_congr fun entry _ => ?_
  change decide ((repo, entry.1) = (repo, key)) = decide (entry.1 = key)
  rw [decide_eq_decide, Prod.mk.injEq]
  exact and_iff_right rfl

end Drafts

section Paths

variable {units : List CodeUnit} {source_ids : Dict String Uuid}

/-- The artifact of a draft of some file, under the row of that file. -/
def WrittenUnder (n : Nat) (source_ids : Dict String Uuid) (path : String) (draft : CodeArtifactDraft)
    (a : KnowledgeArtifact) : Prop :=
  source_ids.get? path = some a.source_id ∧ draft.Written n a

/-- The drafts of some files were written, each under the row of its file, and their keys point there. -/
structure PathsDrafted (source_ids : Dict String Uuid) (repo : String) (r : Registry)
    (entries : List (String × List CodeArtifactDraft)) (w : CodeWrites) (added : List KnowledgeArtifact) :
    Prop where
  artifacts : w.registry.artifacts = r.artifacts ++ added
  build_seq : w.registry.build_seq = r.build_seq
  sound : ∀ a ∈ added, ∃ entry ∈ entries, ∃ draft ∈ entry.2, WrittenUnder r.build_seq source_ids entry.1 draft a
  complete : ∀ entry ∈ entries, ∀ draft ∈ entry.2, ∃ a ∈ added, WrittenUnder r.build_seq source_ids entry.1 draft a
  keys : ∀ entry ∈ entries, ∀ key draft, draft_of entry.2 key = some draft →
    ∃ a ∈ added, WrittenUnder r.build_seq source_ids entry.1 draft a ∧ w.code_key_map.get? (repo, key) = some a.artifact_id

/-- The files come one by one. -/
theorem pathsDrafted_write_paths (p : Platform) (b : Build) (repo : String) (r : Registry) (key_map : CodeKeyMap)
    (entries : List (String × List CodeArtifactDraft)) (hnodup : (entries.map (·.1)).Nodup)
    (hpath : ∀ entry ∈ entries, ∀ draft ∈ entry.2, path_of_code_key draft.key = entry.1)
    (hfile : ∀ entry ∈ entries, (unit_at units entry.1).isSome ∧ (source_ids.get? entry.1).isSome) :
    ∃ added, PathsDrafted source_ids repo r entries
      (entries.foldl (write_path p b units source_ids repo) { registry := r, code_key_map := key_map }) added := by
  induction entries using List.reverseRecOn with
  | nil => exact ⟨[], by simp, rfl, by simp, by simp, by simp⟩
  | append_singleton entries entry ih =>
    rw [List.map_append, List.nodup_append] at hnodup
    obtain ⟨added, h⟩ := ih hnodup.1 (fun e he => hpath e (List.mem_append_left _ he))
      fun e he => hfile e (List.mem_append_left _ he)
    rw [List.foldl_append, List.foldl_cons, List.foldl_nil]
    generalize entries.foldl (write_path p b units source_ids repo) { registry := r, code_key_map := key_map } = w at h
    have hentry : entry ∈ entries ++ [entry] := List.mem_append_right _ List.mem_cons_self
    obtain ⟨hunit, hid⟩ := hfile entry hentry
    obtain ⟨unit, hunit⟩ := Option.isSome_iff_exists.1 hunit
    obtain ⟨source_id, hid⟩ := Option.isSome_iff_exists.1 hid
    obtain ⟨written, hartifacts, hsound, hcomplete, hkeys, hkey⟩ := write_code_artifacts_written p w.registry
      (source_id, unit.fetched.content_hash) b.kb_version w.registry.build_seq unit.fetched.source.acl_teams entry.2
    have hstep : write_path p b units source_ids repo w entry =
        { registry := (write_code_artifacts p w.registry (source_id, unit.fetched.content_hash) b.kb_version
            w.registry.build_seq unit.fetched.source.acl_teams entry.2).1
          code_key_map := (write_code_artifacts p w.registry (source_id, unit.fetched.content_hash) b.kb_version
            w.registry.build_seq unit.fetched.source.acl_teams entry.2).2.foldl
              (fun map entry => Dict.set map (repo, entry.1) entry.2) w.code_key_map
          artifact_ids := w.artifact_ids ++ (write_code_artifacts p w.registry
            (source_id, unit.fetched.content_hash) b.kb_version w.registry.build_seq
              unit.fetched.source.acl_teams entry.2).2.map (·.2) } := by
      unfold unit_at at hunit
      simp only [write_path, hunit, hid]
    have hseq : (write_code_artifacts p w.registry (source_id, unit.fetched.content_hash) b.kb_version
        w.registry.build_seq unit.fetched.source.acl_teams entry.2).1.build_seq = r.build_seq := h.build_seq
    rw [hstep]
    generalize write_code_artifacts p w.registry (source_id, unit.fetched.content_hash) b.kb_version
      w.registry.build_seq unit.fetched.source.acl_teams entry.2 = result at hartifacts hseq hkeys hkey
    rw [h.build_seq] at hsound hcomplete hkey
    have hunder : ∀ a ∈ written, source_ids.get? entry.1 = some a.source_id := fun a ha =>
      (hsound a ha).1 ▸ hid
    refine ⟨added ++ written, ?_, hseq, ?_, ?_, ?_⟩
    · rw [hartifacts, h.artifacts, List.append_assoc]
    · intro a ha
      cases List.mem_append.1 ha with
      | inl hold =>
        obtain ⟨e, he, hrest⟩ := h.sound a hold
        exact ⟨e, List.mem_append_left _ he, hrest⟩
      | inr hnew =>
        obtain ⟨-, draft, hdraft, hwritten⟩ := hsound a hnew
        exact ⟨entry, hentry, draft, hdraft, hunder a hnew, hwritten⟩
    · intro e he draft hdraft
      cases List.mem_append.1 he with
      | inl hold =>
        obtain ⟨a, ha, hrest⟩ := h.complete e hold draft hdraft
        exact ⟨a, List.mem_append_left _ ha, hrest⟩
      | inr hnew =>
        obtain rfl := List.mem_singleton.1 hnew
        obtain ⟨a, ha, hwritten⟩ := hcomplete draft hdraft
        exact ⟨a, List.mem_append_right _ ha, hunder a ha, hwritten⟩
    · intro e he key draft hdraft
      dsimp only
      rw [get?_update_keys hkeys]
      have hmem : draft ∈ e.2 ∧ draft.key = key :=
        ⟨List.mem_reverse.1 (List.mem_of_find?_eq_some hdraft), by simpa using List.find?_some hdraft⟩
      cases List.mem_append.1 he with
      | inl hold =>
        -- the file just written has another path, so none of its keys is this one
        have hnone : draft_of entry.2 key = none := by
          cases hfound : draft_of entry.2 key with
          | none => rfl
          | some other =>
            have hother := hpath entry hentry other (List.mem_reverse.1 (List.mem_of_find?_eq_some hfound))
            have hsame : other.key = key := by simpa using List.find?_some hfound
            rw [hsame, ← hmem.2, hpath e he draft hmem.1] at hother
            exact absurd hother (hnodup.2.2 _ (List.mem_map_of_mem hold) _ (by simp))
        obtain ⟨a, ha, hunder', hget⟩ := h.keys e hold key draft hdraft
        refine ⟨a, List.mem_append_left _ ha, hunder', ?_⟩
        rw [(hkey key).2 hnone, Option.none_or, hget]
      | inr hnew =>
        obtain rfl := List.mem_singleton.1 hnew
        obtain ⟨a, ha, hwritten, hget⟩ := (hkey key).1 draft hdraft
        refine ⟨a, List.mem_append_right _ ha, ⟨hunder a ha, hwritten⟩, ?_⟩
        rw [hget, Option.some_or]

end Paths

section Edges

variable {p : Platform} {r r' : Registry} {repo : String} {key_map : CodeKeyMap} {kb_version : String}

/-- The edge a draft is written as in build `n`, between the artifacts its keys name. -/
structure CodeEdgeDraft.Written (n : Nat) (key_map : CodeKeyMap) (repo : String) (draft : CodeEdgeDraft)
    (e : KnowledgeEdge) : Prop where
  introduced : e.IntroducedBy n
  source : e.source = some .graphify
  edge_type : e.edge_type = draft.edge_type.edge_type
  confidence : e.confidence = some draft.confidence
  from_key : key_map.get? (repo, draft.from_key) = some e.from_artifact_id
  to_key : key_map.get? (repo, draft.to_key) = some e.to_artifact_id

/-- When the keys of the drafts were all written in this build, so is one edge for each draft. -/
theorem write_code_edges_written {drafts : List CodeEdgeDraft}
    (hkeys : ∀ draft ∈ drafts, (key_map.get? (repo, draft.from_key)).isSome ∧
      (key_map.get? (repo, draft.to_key)).isSome)
    (h : write_code_edges p r kb_version r.build_seq repo drafts key_map = some r') :
    ∃ links, r'.edges = r.edges ++ links ∧
      (∀ e ∈ links, ∃ draft ∈ drafts, draft.Written r.build_seq key_map repo e) ∧
      ∀ draft ∈ drafts, ∃ e ∈ links, draft.Written r.build_seq key_map repo e := by
  refine foldlM_prefix_invariant (I := fun done (r' : Registry) => ∃ links, r'.edges = r.edges ++ links ∧
      (∀ e ∈ links, ∃ draft ∈ done, draft.Written r.build_seq key_map repo e) ∧
      ∀ draft ∈ done, ∃ e ∈ links, draft.Written r.build_seq key_map repo e) ?_
    ⟨[], by simp, by simp, by simp⟩ h
  rintro done mid draft r' hdraft ⟨links, hedges, hsound, hcomplete⟩ hstep
  obtain ⟨hfrom, hto⟩ := hkeys draft hdraft
  obtain ⟨from_id, hfrom⟩ := Option.isSome_iff_exists.1 hfrom
  obtain ⟨to_id, hto⟩ := Option.isSome_iff_exists.1 hto
  simp only [write_code_edge, resolve_key, hfrom, hto, Option.bind_eq_bind, Option.bind_some,
    Option.some.injEq] at hstep
  obtain ⟨e, hadded, hwritten⟩ : ∃ e, r'.edges = mid.edges ++ [e] ∧ draft.Written r.build_seq key_map repo e := by
    subst hstep
    exact ⟨_, rfl, ⟨rfl, rfl⟩, rfl, rfl, rfl, hfrom, hto⟩
  refine ⟨links ++ [e], ?_, ?_, ?_⟩
  · rw [hadded, hedges, List.append_assoc]
  · intro e' he'
    cases List.mem_append.1 he' with
    | inl hold =>
      obtain ⟨d, hd, hold⟩ := hsound e' hold
      exact ⟨d, List.mem_append_left _ hd, hold⟩
    | inr hnew =>
      rw [List.mem_singleton.1 hnew]
      exact ⟨draft, List.mem_append_right _ List.mem_cons_self, hwritten⟩
  · intro d hd
    cases List.mem_append.1 hd with
    | inl hold =>
      obtain ⟨e', he', hold⟩ := hcomplete d hold
      exact ⟨e', List.mem_append_left _ he', hold⟩
    | inr hnew =>
      rw [List.mem_singleton.1 hnew]
      exact ⟨e, List.mem_append_right _ List.mem_cons_self, hwritten⟩

end Edges

section Repo

variable {p : Platform} {b : Build} {s s' : SourceLoop} {repo : String} {units : List CodeUnit}
  {result : GraphifyResult}

/-- An edge between the artifacts of the drafts that its keys stand for. -/
structure LinkWritten (n : Nat) (source_ids : Dict String Uuid) (result : GraphifyResult)
    (added : List KnowledgeArtifact) (draft : CodeEdgeDraft) (e : KnowledgeEdge) : Prop where
  introduced : e.IntroducedBy n
  source : e.source = some .graphify
  edge_type : e.edge_type = draft.edge_type.edge_type
  confidence : e.confidence = some draft.confidence
  from_end : ∃ d, draft_of result.artifacts draft.from_key = some d ∧
    ∃ a ∈ added, WrittenUnder n source_ids (path_of_code_key d.key) d a ∧ a.artifact_id = e.from_artifact_id
  to_end : ∃ d, draft_of result.artifacts draft.to_key = some d ∧
    ∃ a ∈ added, WrittenUnder n source_ids (path_of_code_key d.key) d a ∧ a.artifact_id = e.to_artifact_id

/-- The extractor's answer for a repo was written in full. -/
structure RepoDrafted (p : Platform) (s s' : SourceLoop) (units : List CodeUnit) (result : GraphifyResult)
    (added : List KnowledgeArtifact) (links : List KnowledgeEdge) : Prop where
  rows : s'.current.source_items = (upsert_units p s.current units).1.source_items
  seen : s'.seen = s.seen ++ (upsert_units p s.current units).2.2
  changed : s'.changed = s.changed ++ (upsert_units p s.current units).2.2
  artifacts : s'.current.artifacts = s.current.artifacts ++ added
  edges : s'.current.edges = s.current.edges ++ links
  sound : ∀ a ∈ added, ∃ draft ∈ result.artifacts,
    WrittenUnder s.current.build_seq (upsert_units p s.current units).2.1 (path_of_code_key draft.key) draft a
  complete : ∀ draft ∈ result.artifacts, ∃ a ∈ added,
    WrittenUnder s.current.build_seq (upsert_units p s.current units).2.1 (path_of_code_key draft.key) draft a
  links_sound : ∀ e ∈ links, ∃ draft ∈ result.edges,
    LinkWritten s.current.build_seq (upsert_units p s.current units).2.1 result added draft e
  links_complete : ∀ draft ∈ result.edges, ∃ e ∈ links,
    LinkWritten s.current.build_seq (upsert_units p s.current units).2.1 result added draft e

/-- The last draft of a key is the last of its group. -/
theorem draft_of_group {drafts : List CodeArtifactDraft} {key : String} {draft : CodeArtifactDraft}
    (h : draft_of drafts key = some draft) :
    ∃ entry ∈ drafts_by_path drafts, entry.1 = path_of_code_key draft.key ∧ draft_of entry.2 key = some draft := by
  have hmem : draft ∈ drafts := List.mem_reverse.1 (List.mem_of_find?_eq_some h)
  have hkey : draft.key = key := by simpa using List.find?_some h
  obtain ⟨entry, hentry, hpath, -⟩ := mem_drafts_by_path hmem
  refine ⟨entry, hentry, hpath, ?_⟩
  have hgroup : entry.2 = drafts.filter fun d => path_of_code_key d.key == entry.1 :=
    Dict.group_eq_filter (fun d : CodeArtifactDraft => path_of_code_key d.key) hentry
  rw [draft_of, hgroup, ← List.filter_reverse, List.find?_filter, ← h, draft_of]
  refine List.find?_congr fun d _ => ?_
  by_cases hd : d.key = key
  · simp [hd, hpath, hkey]
  · simp [hd]

theorem repoDrafted_graphify_one_repo (hwf : WellFormed p s.current) (hinj : Function.Injective p.gen_random_uuid)
    (hrows : RowsExist s.current units) (h : graphify_one_repo p b s (repo, units) = some s')
    (hresult : b.graphify_tree (units.map fun unit => (unit.path, unit.fetched.text)) = some result)
    (hpaths : ∀ draft ∈ result.artifacts, ∃ unit ∈ units, unit.path = path_of_code_key draft.key)
    (hclosed : ∀ draft ∈ result.edges, (∃ d ∈ result.artifacts, d.key = draft.from_key) ∧
      ∃ d ∈ result.artifacts, d.key = draft.to_key) :
    ∃ added links, RepoDrafted p s s' units result added links := by
  have hups := upsert_units_spec hwf hinj units hrows
  have hgroups : ∀ entry ∈ drafts_by_path result.artifacts, ∀ draft ∈ entry.2,
      draft ∈ result.artifacts ∧ path_of_code_key draft.key = entry.1 := fun entry hentry =>
    (Dict.group_sound (fun d : CodeArtifactDraft => path_of_code_key d.key) hentry).2
  have hfile : ∀ entry ∈ drafts_by_path result.artifacts, (unit_at units entry.1).isSome ∧
      ((upsert_units p s.current units).2.1.get? entry.1).isSome := by
    intro entry hentry
    obtain ⟨draft, hdraft, hpath⟩ := exists_draft_of_mem hentry
    obtain ⟨unit, hunit, hname⟩ := hpaths draft hdraft
    have hat : (unit_at units entry.1).isSome = true := by
      rw [unit_at, List.find?_isSome]
      exact ⟨unit, List.mem_reverse.2 hunit, by simp [hname, hpath]⟩
    obtain ⟨found, hfound⟩ := Option.isSome_iff_exists.1 hat
    obtain ⟨row, -, -, hget⟩ := hups.by_path entry.1 found hfound
    exact ⟨hat, by rw [hget]; rfl⟩
  obtain ⟨added, hpath⟩ := pathsDrafted_write_paths p b repo (upsert_units p s.current units).1 s.code_key_map
    (drafts_by_path result.artifacts) (Dict.nodup_group _ _)
    (fun entry hentry draft hdraft => (hgroups entry hentry draft hdraft).2) hfile
  simp only [graphify_one_repo, hresult, Option.bind_eq_bind, Option.bind_eq_some_iff, Option.some.injEq,
    Prod.exists, write_repo_artifacts, Prod.mk.injEq] at h
  obtain ⟨staged, key_map, ids, ⟨indexed, hindex, rfl, rfl, rfl⟩, r', hedges, rfl⟩ := h
  have hsame := sameCore_embed_and_index hindex
  have hseq : (upsert_units p s.current units).1.build_seq = s.current.build_seq := hups.only.build_seq
  set w := (drafts_by_path result.artifacts).foldl (write_path p b units (upsert_units p s.current units).2.1 repo)
    { registry := (upsert_units p s.current units).1, code_key_map := s.code_key_map } with hw
  have hindexed : indexed.build_seq = s.current.build_seq := hsame.build_seq.trans (hpath.build_seq.trans hseq)
  have hwritten : ∀ key draft, draft_of result.artifacts key = some draft → ∃ a ∈ added,
      WrittenUnder s.current.build_seq (upsert_units p s.current units).2.1 (path_of_code_key draft.key) draft a ∧
        w.code_key_map.get? (repo, key) = some a.artifact_id := by
    intro key draft hdraft
    obtain ⟨entry, hentry, hname, hlast⟩ := draft_of_group hdraft
    obtain ⟨a, ha, hunder, hget⟩ := hpath.keys entry hentry key draft hlast
    exact ⟨a, ha, hseq ▸ hname ▸ hunder, hget⟩
  have hnamed : ∀ key, (∃ d ∈ result.artifacts, d.key = key) → ∃ d, draft_of result.artifacts key = some d := by
    rintro key ⟨d, hd, hkey⟩
    refine Option.isSome_iff_exists.1 ?_
    rw [draft_of, List.find?_isSome]
    exact ⟨d, List.mem_reverse.2 hd, by simp [hkey]⟩
  have hends : ∀ key, (∃ d ∈ result.artifacts, d.key = key) → ∃ d, draft_of result.artifacts key = some d ∧
      ∃ a ∈ added, WrittenUnder s.current.build_seq (upsert_units p s.current units).2.1
        (path_of_code_key d.key) d a ∧ w.code_key_map.get? (repo, key) = some a.artifact_id := by
    intro key hkey
    obtain ⟨d, hd⟩ := hnamed key hkey
    exact ⟨d, hd, hwritten key d hd⟩
  obtain ⟨links, hadded, hsound, hcomplete⟩ := write_code_edges_written (fun draft hdraft => by
    obtain ⟨hfrom, hto⟩ := hclosed draft hdraft
    obtain ⟨-, -, a, -, -, hfrom⟩ := hends _ hfrom
    obtain ⟨-, -, a', -, -, hto⟩ := hends _ hto
    rw [hfrom, hto]
    exact ⟨rfl, rfl⟩) hedges
  rw [hindexed] at hsound hcomplete
  have hlink : ∀ draft ∈ result.edges, ∀ e, draft.Written s.current.build_seq w.code_key_map repo e →
      LinkWritten s.current.build_seq (upsert_units p s.current units).2.1 result added draft e := by
    intro draft hdraft e he
    obtain ⟨hfrom, hto⟩ := hclosed draft hdraft
    obtain ⟨d, hd, a, ha, hunder, hget⟩ := hends _ hfrom
    obtain ⟨d', hd', a', ha', hunder', hget'⟩ := hends _ hto
    exact
      { introduced := he.introduced
        source := he.source
        edge_type := he.edge_type
        confidence := he.confidence
        from_end := ⟨d, hd, a, ha, hunder, Option.some.inj (hget.symm.trans he.from_key)⟩
        to_end := ⟨d', hd', a', ha', hunder', Option.some.inj (hget'.symm.trans he.to_key)⟩ }
  obtain ⟨_, happ⟩ := write_code_edges_spec hedges
  obtain ⟨_, hframe⟩ := write_paths_spec b units (upsert_units p s.current units).2.1 repo hinj hups.wellFormed
    (drafts_by_path result.artifacts) s.code_key_map
  refine ⟨added, links, ?_, rfl, rfl, ?_, ?_, ?_, ?_, ?_, ?_⟩
  · exact happ.source_items.trans (hsame.source_items.trans hframe.appended.source_items)
  · rw [happ.artifacts, hsame.artifacts, hpath.artifacts, hups.only.artifacts]
  · exact hadded.trans (by rw [hsame.edges, hframe.appended.edges, hups.only.edges])
  · intro a ha
    obtain ⟨entry, hentry, draft, hdraft, hunder⟩ := hpath.sound a ha
    obtain ⟨hmem, hname⟩ := hgroups entry hentry draft hdraft
    exact ⟨draft, hmem, hseq ▸ hname ▸ hunder⟩
  · intro draft hdraft
    obtain ⟨group, hgroup, hmem⟩ := Dict.mem_group_of_mem (fun d : CodeArtifactDraft => path_of_code_key d.key)
      (d := []) hdraft
    obtain ⟨a, ha, hunder⟩ := hpath.complete _ (Dict.mem_of_get? hgroup) draft hmem
    exact ⟨a, ha, hseq ▸ hunder⟩
  · intro e he
    obtain ⟨draft, hdraft, hwritten'⟩ := hsound e he
    exact ⟨draft, hdraft, hlink draft hdraft e hwritten'⟩
  · intro draft hdraft
    obtain ⟨e, he, hwritten'⟩ := hcomplete draft hdraft
    exact ⟨e, he, hlink draft hdraft e hwritten'⟩

end Repo

end AgenticKb

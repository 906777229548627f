import AgenticKb.Indexing.LocalFile
import AgenticKb.Properties.SearchIndex

open AgenticKb.Lib

namespace AgenticKb.LocalFile

variable {p : Platform} {r : Registry} {held docs : SearchIndex} {files : Files} {s : LocalIndex}

section Stage

theorem delete_docs_eq (doc_ids : List Uuid) :
    delete_docs docs doc_ids = docs.filter fun entry => decide (entry.1 ∉ doc_ids) := by
  induction doc_ids generalizing docs with
  | nil => simp [delete_docs]
  | cons id doc_ids ih =>
    have hstep : delete_docs docs (id :: doc_ids) = delete_docs (docs.del id) doc_ids := rfl
    rw [hstep, ih, Dict.del, List.filter_filter]
    apply List.filter_congr
    intro entry _
    by_cases hid : entry.1 = id
    · simp [hid]
    · simp [hid]

theorem mem_orphaned_ids {id : Uuid} :
    id ∈ orphaned_ids r held ↔ (∃ doc, (id, doc) ∈ held) ∧ (load_doc_hashes r).any (·.1 == id) = false := by
  simp only [orphaned_ids, index_state, List.mem_map, List.mem_filter, Bool.not_eq_true']
  constructor
  · rintro ⟨-, ⟨⟨entry, hentry, rfl⟩, hgone⟩, rfl⟩
    exact ⟨⟨entry.2, hentry⟩, hgone⟩
  · rintro ⟨⟨doc, hdoc⟩, hgone⟩
    exact ⟨(id, doc.artifact_hash), ⟨⟨(id, doc), hdoc, rfl⟩, hgone⟩, rfl⟩

/-- Deleting what is orphaned is the sweep. -/
theorem delete_docs_orphaned : delete_docs held (orphaned_ids r held) = AgenticKb.delete_orphaned r held := by
  rw [delete_docs_eq, AgenticKb.delete_orphaned]
  apply List.filter_congr
  intro entry hentry
  cases hany : (load_doc_hashes r).any (·.1 == entry.1) with
  | true =>
    have hkept : entry.1 ∉ orphaned_ids r held := fun hmem => by simp [(mem_orphaned_ids.1 hmem).2] at hany
    exact (decide_eq_true hkept).trans hany.symm
  | false =>
    have hgone : entry.1 ∈ orphaned_ids r held := mem_orphaned_ids.2 ⟨⟨entry.2, hentry⟩, hany⟩
    exact (decide_eq_false (not_not.2 hgone)).trans hany.symm

theorem client_delete_orphaned (hclient : s.client = some held) :
    (delete_orphaned r s).client = some (AgenticKb.delete_orphaned r held) := by
  simp only [delete_orphaned, hclient]
  split
  · rename_i hnone
    rw [← delete_docs_orphaned, List.isEmpty_iff.1 hnone]
    exact hclient
  · rw [← delete_docs_orphaned, LocalIndex.step, hclient]
    rfl

theorem client_reconcile_missing (hclient : s.client = some held) :
    (reconcile_missing p r s).client = some (AgenticKb.reconcile_missing p r held) := by
  simp only [reconcile_missing, hclient]
  split
  · rename_i hnone
    have hempty : load_search_docs p r (some []) = [] := by
      rw [load_search_docs_some]
      simp
    rw [AgenticKb.reconcile_missing, List.isEmpty_iff.1 hnone, hempty]
    exact hclient
  · rw [LocalIndex.step, hclient]
    rfl

/-- The index stage over the file is the index stage. -/
theorem client_reconcile_index (hclient : s.client = some held) :
    (reconcile_index p r s).client = some (AgenticKb.reconcile_index p r held) :=
  client_reconcile_missing (client_delete_orphaned hclient)

end Stage

section Consistency

/-- A projected document is held, at the hash of its artifact. -/
theorem held_at_hash (hids : (r.artifacts.map (·.artifact_id)).Nodup) {entry : Uuid × SearchDoc}
    (h : entry ∈ projection p r) :
    (Dict.get? (AgenticKb.reconcile_index p r held) entry.1).map (·.artifact_hash) = some entry.2.artifact_hash := by
  rw [get?_reconcile_index hids h]
  split
  · assumption
  · rfl

/-- The reconciled index passes the check, whatever it held before. -/
theorem reconcile_index_consistent (p : Platform) (hids : (r.artifacts.map (·.artifact_id)).Nodup) :
    validate_index_consistency r (AgenticKb.reconcile_index p r held) = true := by
  have hstate (id : Uuid) : (index_state (AgenticKb.reconcile_index p r held)).get? id =
      (Dict.get? (AgenticKb.reconcile_index p r held) id).map (·.artifact_hash) := Dict.get?_map
  have hexpected (entry : Uuid × Option String) (hentry : entry ∈ load_doc_hashes r) :
      (index_state (AgenticKb.reconcile_index p r held)).get? entry.1 = some entry.2 := by
    rw [load_doc_hashes_eq (p := p)] at hentry
    obtain ⟨projected, hprojected, rfl⟩ := List.mem_map.1 hentry
    rw [hstate]
    exact held_at_hash hids hprojected
  simp only [validate_index_consistency, Bool.and_eq_true, List.isEmpty_iff, List.filter_eq_nil_iff]
  refine ⟨⟨?_, ?_⟩, ?_⟩
  · intro entry hentry
    simp [hexpected entry hentry]
  · intro entry hentry horphan
    obtain ⟨⟨id, doc⟩, hdoc, rfl⟩ := List.mem_map.1 hentry
    obtain ⟨found, hfound⟩ := Dict.get?_isSome_of_mem hdoc
    have hnone : Dict.get? (AgenticKb.reconcile_index p r held) id = none := by
      apply get?_reconcile_index_of_forall_ne
      intro projected hprojected heq
      have hmem : (projected.1, projected.2.artifact_hash) ∈ load_doc_hashes r := by
        rw [load_doc_hashes_eq (p := p)]
        exact List.mem_map_of_mem hprojected
      obtain ⟨hash, hhash⟩ := Dict.get?_isSome_of_mem hmem
      rw [heq] at hhash
      simp [hhash] at horphan
    rw [hnone] at hfound
    cases hfound
  · intro entry hentry
    simp [hexpected entry hentry]

/-- Where the check passes, the stage finds nothing to do. -/
theorem idle_of_consistent (h : validate_index_consistency r held = true) :
    orphaned_ids r held = [] ∧ stale_doc_ids r held = [] := by
  simp only [validate_index_consistency, Bool.and_eq_true, List.isEmpty_iff, List.filter_eq_nil_iff] at h
  obtain ⟨⟨hmissing, horphaned⟩, hdrifted⟩ := h
  constructor
  · simp only [orphaned_ids, List.map_eq_nil_iff, List.filter_eq_nil_iff]
    intro entry hentry hgone
    have hfound := horphaned entry hentry
    rw [Option.isNone_iff_eq_none] at hfound
    obtain ⟨hash, hhash⟩ := Option.ne_none_iff_exists'.1 hfound
    have hany : (load_doc_hashes r).any (·.1 == entry.1) = true :=
      List.any_eq_true.2 ⟨(entry.1, hash), Dict.mem_of_get? hhash, by simp⟩
    simp [hany] at hgone
  · simp only [stale_doc_ids, List.map_eq_nil_iff, List.filter_eq_nil_iff]
    intro entry hentry hstale
    have hfound := hmissing entry hentry
    rw [Option.isNone_iff_eq_none] at hfound
    obtain ⟨hash, hhash⟩ := Option.ne_none_iff_exists'.1 hfound
    have hsame := hdrifted entry hentry
    rw [hhash] at hsame hstale
    simp only [Option.any_some, bne_iff_ne, ne_eq, not_not] at hsame
    simp [hsame] at hstale

end Consistency

section Files

/-- The index file is never half a file: it is what it was, or all of what is written. -/
theorem index_run_steps (docs : SearchIndex) (n : Nat) (files : Files) :
    (run_steps ((write_steps docs).take n) files).index = files.index ∨
      (run_steps ((write_steps docs).take n) files).index = some (.index docs) := by
  by_cases hn : n < 3
  · have hcases : n = 0 ∨ n = 1 ∨ n = 2 := by omega
    obtain rfl | rfl | rfl := hcases
    · exact .inl rfl
    · exact .inl rfl
    · exact .inl rfl
  · rw [List.take_of_length_le (by simpa [write_steps] using hn)]
    exact .inr rfl

/-- The event is not an exception raised while the file is written. -/
def Event.quiet : Event → Bool
  | .upsert _ (.raised _) | .delete _ (.raised _) => false
  | _ => true

/-- The file loads to what the running process holds. -/
def Mirrors (s : LocalIndex) : Prop := ∀ held, s.client = some held → load s.files.index = some held

theorem mirrors_persist {writing : Writing} (hquiet : ∀ n, writing ≠ .raised n) : Mirrors (persist s docs writing) := by
  intro held hheld
  cases writing with
  | done => exact hheld
  | raised n => exact absurd rfl (hquiet n)
  | killed n => cases hheld

/-- A write leaves a file that loads, if it found one. -/
theorem loads_persist {writing : Writing} (h : (load s.files.index).isSome = true) :
    (load (persist s docs writing).files.index).isSome = true := by
  have hsteps : ∀ n, (load (run_steps ((write_steps docs).take n) s.files).index).isSome = true := by
    intro n
    cases index_run_steps docs n s.files with
    | inl hsame => rwa [hsame]
    | inr hwhole => rw [hwhole, load, Option.isSome_some]
  cases writing with
  | done => rfl
  | raised n => exact hsteps n
  | killed n => exact hsteps n

theorem mirrors_step (event : Event) (hquiet : event.quiet = true) (h : Mirrors s) : Mirrors (s.step event) := by
  cases event with
  | start => exact fun _ hheld => hheld
  | exit => exact fun _ hheld => by cases hheld
  | upsert docs writing =>
    cases hclient : s.client with
    | none => simpa only [LocalIndex.step, hclient] using h
    | some held =>
      simp only [LocalIndex.step, hclient]
      exact mirrors_persist fun n hraised => by simp [Event.quiet, hraised] at hquiet
  | delete doc_ids writing =>
    cases hclient : s.client with
    | none => simpa only [LocalIndex.step, hclient] using h
    | some held =>
      simp only [LocalIndex.step, hclient]
      exact mirrors_persist fun n hraised => by simp [Event.quiet, hraised] at hquiet

theorem loads_step (event : Event) (h : (load s.files.index).isSome = true) :
    (load (s.step event).files.index).isSome = true := by
  cases event with
  | start => exact h
  | exit => exact h
  | upsert docs writing =>
    cases hclient : s.client with
    | none => simpa only [LocalIndex.step, hclient] using h
    | some held =>
      simp only [LocalIndex.step, hclient]
      exact loads_persist h
  | delete doc_ids writing =>
    cases hclient : s.client with
    | none => simpa only [LocalIndex.step, hclient] using h
    | some held =>
      simp only [LocalIndex.step, hclient]
      exact loads_persist h

end Files

section Runs

variable {events : List Event}

theorem mirrors_run (hquiet : ∀ event ∈ events, event.quiet = true) : Mirrors (run files events) := by
  induction events using List.reverseRecOn with
  | nil => exact fun held hheld => by cases hheld
  | append_singleton events event ih =>
    rw [run, List.foldl_append]
    exact mirrors_step event (hquiet event (by simp)) (ih fun e he => hquiet e (List.mem_append_left _ he))

/-- What the stage asks of the client is one of its events, if anything. -/
theorem reconcile_index_keeps {I : LocalIndex → Prop} (hstep : ∀ s event, event.quiet = true → I s → I (s.step event))
    (h : I s) : I (reconcile_index p r s) := by
  have hdeleted : I (delete_orphaned r s) := by
    unfold delete_orphaned
    split
    · split
      · exact h
      · exact hstep s _ rfl h
    · exact h
  unfold reconcile_index reconcile_missing
  split
  · split
    · exact hdeleted
    · exact hstep _ _ rfl hdeleted
  · exact hdeleted

/-- A stage that finds nothing to do leaves the client and its file alone. -/
theorem reconcile_index_idle (hclient : s.client = some held) (h : validate_index_consistency r held = true) :
    reconcile_index p r s = s := by
  obtain ⟨horphaned, hstale⟩ := idle_of_consistent h
  simp only [reconcile_index, reconcile_missing, delete_orphaned, hclient, horphaned, hstale, List.isEmpty_nil, if_true]

/-- No process ever runs over a file that cannot be loaded, and none writes it. -/
theorem unloadable_run (h : files.index = some .unloadable) :
    (run files events).client = none ∧ (run files events).files.index = some .unloadable := by
  induction events using List.reverseRecOn with
  | nil => exact ⟨rfl, h⟩
  | append_singleton events event ih =>
    obtain ⟨hclient, hindex⟩ := ih
    rw [run, List.foldl_append]
    change ((run files events).step event).client = none ∧ ((run files events).step event).files.index = some .unloadable
    cases event with
    | start => exact ⟨congrArg load hindex, hindex⟩
    | exit => exact ⟨rfl, hindex⟩
    | upsert docs writing =>
      simp only [LocalIndex.step, hclient, true_and]
      exact hindex
    | delete doc_ids writing =>
      simp only [LocalIndex.step, hclient, true_and]
      exact hindex

/-- From any other file, what the writes leave can be loaded. -/
theorem loads_run (h : files.index ≠ some .unloadable) (events : List Event) :
    (load (run files events).files.index).isSome = true := by
  induction events using List.reverseRecOn with
  | nil =>
    simp only [run, List.foldl_nil]
    cases hindex : files.index with
    | none => rfl
    | some file =>
      cases file with
      | index docs => rfl
      | corrupt => rfl
      | unloadable => exact absurd hindex h
  | append_singleton events event ih =>
    rw [run, List.foldl_append]
    exact loads_step event ih

/-- Only a file whose documents are no object is not healed: no process gets past its start, and the file stays. From any
other one, through any writes, kills and restarts, a process can start, and a build's index stage heals the index: it
does what the stage does to an index that is no file, the check then passes, and a process can start on the file again.
Unless a write raised on the way, that process holds the same documents and has nothing to write. -/
theorem local_index_heals (p : Platform) (r : Registry) (hids : (r.artifacts.map (·.artifact_id)).Nodup)
    (files : Files) (events : List Event) :
    (files.index = some .unloadable →
      (run files events).client = none ∧ (run files events).files.index = some .unloadable) ∧
    (files.index ≠ some .unloadable →
      ((run files events).step .start).client.isSome = true ∧
      ∀ held, (run files events).client = some held →
        (reconcile_index p r (run files events)).client = some (AgenticKb.reconcile_index p r held) ∧
        validate_index_consistency r (AgenticKb.reconcile_index p r held) = true ∧
        (load (reconcile_index p r (run files events)).files.index).isSome ∧
        ((∀ event ∈ events, event.quiet = true) →
          ((reconcile_index p r (run files events)).step .start).client = some (AgenticKb.reconcile_index p r held) ∧
            reconcile_index p r ((reconcile_index p r (run files events)).step .start) =
              (reconcile_index p r (run files events)).step .start)) := by
  refine ⟨unloadable_run, fun hfile => ⟨loads_run hfile events, fun held hclient => ?_⟩⟩
  have hstage := client_reconcile_index (p := p) (r := r) hclient
  have hcheck : validate_index_consistency r (AgenticKb.reconcile_index p r held) = true :=
    reconcile_index_consistent p hids
  have hloads : (load (reconcile_index p r (run files events)).files.index).isSome = true :=
    reconcile_index_keeps (I := fun s => (load s.files.index).isSome = true) (fun _ event _ h => loads_step event h)
      (loads_run hfile events)
  refine ⟨hstage, hcheck, hloads, fun hquiet => ?_⟩
  have hmirrors : Mirrors (reconcile_index p r (run files events)) :=
    reconcile_index_keeps (fun _ event hevent hmirror => mirrors_step event hevent hmirror) (mirrors_run hquiet)
  have hnext := hmirrors _ hstage
  exact ⟨hnext, reconcile_index_idle hnext hcheck⟩

/-- The documents of a page's first build. -/
def page_docs : List SearchDoc := load_search_docs .plain (history .plain cached_generation [page_build [("d", "A")]]) none

/-- A process starts on half a file, its upsert is killed before the file is replaced, another one completes it and ends,
and the next build starts. -/
def killed_once : List Event := [.start, .upsert page_docs (.killed 2), .start, .upsert page_docs .done, .exit, .start]

/-- That build has changed the page: its stage replaces the one document of the index. -/
theorem local_index_heals_killed :
    (run { index := some .corrupt } killed_once).client.map (fun held => held.map (·.1)) = some [2] ∧
    (reconcile_index .plain (history .plain cached_generation [page_build [("d", "A")], page_build [("d", "B")]])
      (run { index := some .corrupt } killed_once)).client.map (fun held => held.map (·.1)) = some [4] ∧
    (reconcile_index .plain (history .plain cached_generation [page_build [("d", "A")], page_build [("d", "B")]])
      (run { index := some .corrupt } killed_once)).client.any (validate_index_consistency
        (history .plain cached_generation [page_build [("d", "A")], page_build [("d", "B")]])) = true := by
  have hview : (run { index := some .corrupt } killed_once).client.map (fun held => held.map (·.1)) = some [2] := by
    decide +kernel
  obtain ⟨held, hclient, -⟩ := Option.map_eq_some_iff.1 hview
  obtain ⟨hstage, hcheck, -⟩ := ((local_index_heals .plain
    (history .plain cached_generation [page_build [("d", "A")], page_build [("d", "B")]]) (by decide +kernel)
    { index := some .corrupt } killed_once).2 (by decide)).2 held hclient
  refine ⟨hview, by decide +kernel, ?_⟩
  rw [hstage]
  exact hcheck

end Runs

end AgenticKb.LocalFile

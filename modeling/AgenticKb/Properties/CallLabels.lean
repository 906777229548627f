import AgenticKb.Properties.GraphReads
import AgenticKb.Properties.ResponseTrim

open AgenticKb.Lib

namespace AgenticKb.ContextBroker

section Corroboration

variable (edges : List EdgeRow)

def DefinedIn (artifact file : Uuid) : Prop :=
  ∃ e ∈ edges, e.edge_type = .defined_in ∧ e.from_artifact_id = artifact ∧ e.to_artifact_id = file

def Imports (importer imported : Uuid) : Prop :=
  ∃ e ∈ edges, e.edge_type = .imports ∧ e.from_artifact_id = importer ∧ e.to_artifact_id = imported

/-- Caller and target share a file, or the caller's file imports the target's. -/
def Corroborated (caller target : Uuid) : Prop :=
  ∃ caller_file target_file, DefinedIn edges caller caller_file ∧ DefinedIn edges target target_file ∧
    (caller_file = target_file ∨ Imports edges caller_file target_file)

/-- The edges name no second file for an artifact. -/
def OneFile (artifact : Uuid) : Prop :=
  ∀ file file', DefinedIn edges artifact file → DefinedIn edges artifact file' → file = file'

/-- One neighbor returned for an edge between the scope and the outside, and the label it has if it is a call. -/
structure Labelled (seeds : List Uuid) (far near : EdgeRow → Uuid) (e : EdgeRow) (entity_id : Uuid) (edge_type : EdgeType)
    (tier : ConfidenceTier) : Prop where
  entity : entity_id = far e
  edge_type : edge_type = e.edge_type
  crosses : near e ∈ seeds ∧ far e ∉ seeds
  either : e.edge_type = .calls → tier = .deterministic ∨ tier = .interpreted
  sound : e.edge_type = .calls → tier = .deterministic → Corroborated edges e.from_artifact_id e.to_artifact_id
  complete : e.edge_type = .calls → OneFile edges e.from_artifact_id → OneFile edges e.to_artifact_id →
    Corroborated edges e.from_artifact_id e.to_artifact_id → tier = .deterministic

end Corroboration

section Tier

variable {caller_file target_file : Option Uuid} {pairs : List (Uuid × Uuid)} {target_path : Option String}

theorem calls_edge_tier_iff :
    (calls_edge_tier caller_file target_file pairs target_path).1 = .deterministic ↔
      ∃ caller target, caller_file = some caller ∧ target_file = some target ∧
        (caller = target ∨ (caller, target) ∈ pairs) := by
  unfold calls_edge_tier
  cases caller_file with
  | none => cases target_path.filter (· != "") <;> simp
  | some caller =>
    cases target_file with
    | none => cases target_path.filter (· != "") <;> simp
    | some target =>
      dsimp only
      by_cases h : (caller == target || pairs.contains (caller, target)) = true
      · rw [if_pos h]
        simpa using h
      · rw [if_neg h]
        have hnot : ¬ (caller = target ∨ (caller, target) ∈ pairs) := by simpa using h
        cases target_path.filter (· != "") <;> simpa using hnot

theorem calls_edge_tier_either :
    (calls_edge_tier caller_file target_file pairs target_path).1 = .deterministic ∨
      (calls_edge_tier caller_file target_file pairs target_path).1 = .interpreted := by
  unfold calls_edge_tier
  extract_lets corroborated
  clear_value corroborated
  cases corroborated with
  | true => exact .inl rfl
  | false => cases target_path.filter (· != "") <;> exact .inr rfl

end Tier

section Reads

variable {edges_at : List Uuid → List EdgeType → List EdgeRow} {edges : List EdgeRow} {cap : Nat} {seeds : List Uuid}

/-- What a read of edges finds: those at the artifacts, of the types. -/
def ReadsEdges (edges_at : List Uuid → List EdgeType → List EdgeRow) (edges : List EdgeRow) : Prop :=
  ∀ ids types e, e ∈ edges_at ids types ↔
    e ∈ edges ∧ (e.from_artifact_id ∈ ids ∨ e.to_artifact_id ∈ ids) ∧ e.edge_type ∈ types

theorem definedIn_of_mem_seed_files (hread : ReadsEdges edges_at edges) {entry : Uuid × Uuid}
    (h : entry ∈ seed_files edges_at seeds) : DefinedIn edges entry.1 entry.2 := by
  cases Dict.mem_foldl_set EdgeRow.from_artifact_id EdgeRow.to_artifact_id h with
  | inl hnil => cases hnil
  | inr hedge =>
    obtain ⟨e, he, rfl⟩ := hedge
    obtain ⟨he, htype⟩ := List.mem_filter.1 he
    exact ⟨e, ((hread _ _ _).1 he).1, by simpa using htype, rfl, rfl⟩

/-- A seed's file is found with the seed. -/
theorem seed_files_complete (hread : ReadsEdges edges_at edges) {artifact file : Uuid} (hseed : artifact ∈ seeds)
    (h : DefinedIn edges artifact file) : ∃ file', (artifact, file') ∈ seed_files edges_at seeds := by
  obtain ⟨e, he, htype, rfl, -⟩ := h
  have hmem : e ∈ (seed_edges edges_at seeds).filter fun e => e.edge_type == .defined_in := by
    rw [List.mem_filter]
    exact ⟨(hread _ _ _).2 ⟨he, .inl hseed, by simp [htype]⟩, by simp [htype]⟩
  have hkey : ((seed_files edges_at seeds).get? e.from_artifact_id).isSome = true := by
    unfold seed_files
    rw [Dict.get?_foldl_set EdgeRow.from_artifact_id EdgeRow.to_artifact_id, Option.isSome_or, Option.isSome_map,
      List.find?_isSome.2 ⟨e, List.mem_reverse.2 hmem, by simp⟩, Bool.true_or]
  obtain ⟨file', hfile'⟩ := Option.isSome_iff_exists.1 hkey
  exact ⟨file', Dict.mem_of_get? hfile'⟩

theorem definedIn_of_get? (hread : ReadsEdges edges_at edges) {artifact file : Uuid}
    (h : (defined_in edges_at cap seeds).get? artifact = some file) : DefinedIn edges artifact file := by
  have hfold : ∀ (found : List EdgeRow) (files : Dict Uuid Uuid), (∀ e ∈ found, e ∈ edges ∧ e.edge_type = .defined_in) →
      (∀ entry ∈ files, DefinedIn edges entry.1 entry.2) →
      ∀ entry ∈ found.foldl (fun files e => files.setdefault e.from_artifact_id e.to_artifact_id) files,
        DefinedIn edges entry.1 entry.2 := by
    intro found
    induction found with
    | nil => exact fun files _ hfiles => hfiles
    | cons e found ih =>
      intro files hfound hfiles
      apply ih
      · exact fun x hx => hfound x (List.mem_cons_of_mem _ hx)
      · intro entry hentry
        cases Dict.mem_setdefault hentry with
        | inl hold => exact hfiles entry hold
        | inr hnew =>
          obtain ⟨he, htype⟩ := hfound e List.mem_cons_self
          rw [hnew]
          exact ⟨e, he, htype, rfl, rfl⟩
  refine hfold _ _ ?_ (fun entry hentry => definedIn_of_mem_seed_files hread hentry) _ (Dict.mem_of_get? h)
  intro e he
  obtain ⟨he, htype⟩ := List.mem_filter.1 he
  exact ⟨((hread _ _ _).1 he).1, by simpa using htype⟩

/-- A file is found for the seeds and for the neighbors returned, wherever the edges name one. -/
theorem defined_in_complete (hread : ReadsEdges edges_at edges) {artifact file : Uuid}
    (hend : artifact ∈ seeds ∨ artifact ∈ neighbor_ids edges_at cap seeds) (h : DefinedIn edges artifact file) :
    ∃ file', (defined_in edges_at cap seeds).get? artifact = some file' := by
  have hkeep : ∀ (found : List EdgeRow) (files : Dict Uuid Uuid), (∃ file', files.get? artifact = some file') →
      ∃ file', (found.foldl (fun files e => files.setdefault e.from_artifact_id e.to_artifact_id) files).get? artifact =
        some file' := by
    intro found
    induction found with
    | nil => exact fun files hfiles => hfiles
    | cons e found ih =>
      intro files hfiles
      apply ih
      rw [Dict.get?_setdefault]
      split
      · exact ⟨_, rfl⟩
      · exact hfiles
  cases hend with
  | inl hseed =>
    obtain ⟨file', hfile'⟩ := seed_files_complete hread hseed h
    exact hkeep _ _ (Dict.get?_isSome_of_mem hfile')
  | inr hneighbor =>
    obtain ⟨e, he, htype, rfl, -⟩ := h
    have hmem : e ∈ (corroboration_edges edges_at cap seeds).filter fun e => e.edge_type == .defined_in := by
      rw [List.mem_filter]
      exact ⟨(hread _ _ _).2 ⟨he, .inl (List.mem_append_left _ hneighbor), by simp [htype]⟩, by simp [htype]⟩
    obtain ⟨before, after, hsplit⟩ := List.append_of_mem hmem
    unfold defined_in
    rw [hsplit, List.foldl_append, List.foldl_cons]
    apply hkeep
    rw [Dict.get?_setdefault, if_pos rfl]
    exact ⟨_, rfl⟩

theorem imports_of_mem (hread : ReadsEdges edges_at edges) {importer imported : Uuid}
    (h : (importer, imported) ∈ import_pairs edges_at cap seeds) : Imports edges importer imported := by
  obtain ⟨e, he, hpair⟩ := List.mem_map.1 h
  obtain ⟨he, htype⟩ := List.mem_filter.1 he
  obtain ⟨rfl, rfl⟩ := Prod.mk.inj hpair
  refine ⟨e, ?_, by simpa using htype, rfl, rfl⟩
  cases List.mem_append.1 he with
  | inl hseed => exact ((hread _ _ _).1 hseed).1
  | inr hsecond => exact ((hread _ _ _).1 hsecond).1

/-- The imports at a seed's file are read. -/
theorem import_pairs_complete (hread : ReadsEdges edges_at edges) {importer imported artifact file : Uuid}
    (hfile : (artifact, file) ∈ seed_files edges_at seeds) (hend : importer = file ∨ imported = file)
    (h : Imports edges importer imported) : (importer, imported) ∈ import_pairs edges_at cap seeds := by
  obtain ⟨e, he, htype, rfl, rfl⟩ := h
  have hasked : file ∈ corroboration_seeds edges_at cap seeds :=
    List.mem_append_right _ (List.mem_map.2 ⟨(artifact, file), hfile, rfl⟩)
  unfold import_pairs
  rw [List.mem_map]
  refine ⟨e, List.mem_filter.2 ⟨List.mem_append_right _ ((hread _ _ _).2 ⟨he, ?_, by simp [htype]⟩), by simp [htype]⟩, rfl⟩
  cases hend with
  | inl heq => exact .inl (heq ▸ hasked)
  | inr heq => exact .inr (heq ▸ hasked)

theorem label_sound (hread : ReadsEdges edges_at edges) {caller target : Uuid} {target_path : Option String}
    (h : (calls_edge_tier ((defined_in edges_at cap seeds).get? caller) ((defined_in edges_at cap seeds).get? target)
      (import_pairs edges_at cap seeds) target_path).1 = .deterministic) : Corroborated edges caller target := by
  obtain ⟨caller_file, target_file, hcaller, htarget, hlink⟩ := calls_edge_tier_iff.1 h
  refine ⟨caller_file, target_file, definedIn_of_get? hread hcaller, definedIn_of_get? hread htarget, ?_⟩
  cases hlink with
  | inl hsame => exact .inl hsame
  | inr himport => exact .inr (imports_of_mem hread himport)

/-- The file found is the one there is. -/
theorem file_found (hread : ReadsEdges edges_at edges) {artifact file : Uuid} (hone : OneFile edges artifact)
    (hend : artifact ∈ seeds ∨ artifact ∈ neighbor_ids edges_at cap seeds) (h : DefinedIn edges artifact file) :
    (defined_in edges_at cap seeds).get? artifact = some file := by
  obtain ⟨file', hfile'⟩ := defined_in_complete hread hend h
  rw [hfile', hone file' file (definedIn_of_get? hread hfile') h]

/-- A call between a seed and a neighbor returned is sure wherever it is corroborated. -/
theorem label_complete (hread : ReadsEdges edges_at edges) {caller target : Uuid} {target_path : Option String}
    (hcaller : OneFile edges caller) (htarget : OneFile edges target)
    (hends : caller ∈ neighbor_ids edges_at cap seeds ∧ target ∈ seeds ∨
      caller ∈ seeds ∧ target ∈ neighbor_ids edges_at cap seeds)
    (h : Corroborated edges caller target) :
    (calls_edge_tier ((defined_in edges_at cap seeds).get? caller) ((defined_in edges_at cap seeds).get? target)
      (import_pairs edges_at cap seeds) target_path).1 = .deterministic := by
  obtain ⟨caller_file, target_file, hcaller_file, htarget_file, hlink⟩ := h
  have hseed_file : ∀ {artifact file}, artifact ∈ seeds → OneFile edges artifact → DefinedIn edges artifact file →
      (artifact, file) ∈ seed_files edges_at seeds := by
    intro artifact file hseed hone hfile
    obtain ⟨file', hfile'⟩ := seed_files_complete hread hseed hfile
    rwa [hone file' file (definedIn_of_mem_seed_files hread hfile') hfile] at hfile'
  rw [calls_edge_tier_iff]
  refine ⟨caller_file, target_file, file_found hread hcaller ?_ hcaller_file,
    file_found hread htarget ?_ htarget_file, ?_⟩
  · exact hends.symm.imp (·.1) (·.1)
  · exact hends.imp (·.2) (·.2)
  · cases hlink with
    | inl hsame => exact .inl hsame
    | inr himport =>
      refine .inr ?_
      cases hends with
      | inl hin => exact import_pairs_complete hread (hseed_file hin.2 htarget htarget_file) (.inr rfl) himport
      | inr hout => exact import_pairs_complete hread (hseed_file hout.1 hcaller hcaller_file) (.inl rfl) himport

variable {hydrate : List Uuid → Uuid → Option ArtifactRow}

/-- One neighbor returned. -/
theorem labelled_blast_entity (hread : ReadsEdges edges_at edges)
    (hhydrate : ∀ ids id row, hydrate ids id = some row → row.artifact_id = id) {far near : EdgeRow → Uuid} {e : EdgeRow}
    {entry : BlastEntry} (hcrosses : near e ∈ seeds ∧ far e ∉ seeds)
    (hends : e.from_artifact_id ∈ neighbor_ids edges_at cap seeds ∧ e.to_artifact_id ∈ seeds ∨
      e.from_artifact_id ∈ seeds ∧ e.to_artifact_id ∈ neighbor_ids edges_at cap seeds)
    (h : blast_entity edges_at cap seeds hydrate e (far e) = some entry) :
    Labelled edges seeds far near e entry.entity_id entry.edge_type entry.confidence_tier := by
  obtain ⟨row, hrow, rfl⟩ := Option.map_eq_some_iff.1 h
  constructor
  case entity => exact hhydrate _ _ _ hrow
  case edge_type => rfl
  case crosses => exact hcrosses
  case either =>
    intro hcalls
    simp only [hcalls, beq_self_eq_true, if_true]
    exact calls_edge_tier_either
  case sound =>
    intro hcalls
    simp only [hcalls, beq_self_eq_true, if_true]
    exact label_sound hread
  case complete =>
    intro hcalls
    simp only [hcalls, beq_self_eq_true, if_true]
    exact fun hcaller htarget hcor => label_complete hread hcaller htarget hends hcor

/-- The neighbors returned in one direction, each beside its edge. -/
theorem entries_labelled (hread : ReadsEdges edges_at edges)
    (hhydrate : ∀ ids id row, hydrate ids id = some row → row.artifact_id = id) (str_uuid : Uuid → String)
    {far near : EdgeRow → Uuid} {taken : List EdgeRow}
    (htaken : ∀ e ∈ taken, (near e ∈ seeds ∧ far e ∉ seeds) ∧
      (e.from_artifact_id ∈ neighbor_ids edges_at cap seeds ∧ e.to_artifact_id ∈ seeds ∨
        e.from_artifact_id ∈ seeds ∧ e.to_artifact_id ∈ neighbor_ids edges_at cap seeds)) :
    ∃ found, found.Subperm taken ∧
      List.Forall₂ (fun e entry => Labelled edges seeds far near e entry.entity_id entry.edge_type entry.confidence_tier)
        found (ordered str_uuid (taken.filterMap fun e => blast_entity edges_at cap seeds hydrate e (far e))) := by
  obtain ⟨taken', hsub, hmatch⟩ := forall₂_filterMap (fun e => blast_entity edges_at cap seeds hydrate e (far e)) taken
  obtain ⟨found, hperm, hfound⟩ := forall₂_perm hmatch (sorted_perm _).symm
  have hsubperm : found.Subperm taken := hperm.subperm.trans hsub.subperm
  refine ⟨found, hsubperm, ?_⟩
  have hboth := (List.forall₂_and_left (p := fun e => e ∈ taken) _ _).2 ⟨fun e he => hsubperm.subset he, hfound⟩
  exact hboth.imp fun e entry h => labelled_blast_entity hread hhydrate (htaken e h.1).1 (htaken e h.1).2 h.2

theorem caller_taken {e : EdgeRow} (h : e ∈ (caller_edges edges_at seeds).take cap) :
    (e.to_artifact_id ∈ seeds ∧ e.from_artifact_id ∉ seeds) ∧
      (e.from_artifact_id ∈ neighbor_ids edges_at cap seeds ∧ e.to_artifact_id ∈ seeds ∨
        e.from_artifact_id ∈ seeds ∧ e.to_artifact_id ∈ neighbor_ids edges_at cap seeds) := by
  have hedge : is_dependency e = true ∧ e.to_artifact_id ∈ seeds ∧ e.from_artifact_id ∉ seeds := by
    simpa [enters] using (List.mem_filter.1 (List.mem_of_mem_take h)).2
  refine ⟨hedge.2, .inl ⟨?_, hedge.2.1⟩⟩
  exact List.mem_append_left _ (List.mem_map_of_mem (List.mem_append_left _ h))

theorem callee_taken {e : EdgeRow} (h : e ∈ (callee_edges edges_at seeds).take cap) :
    (e.from_artifact_id ∈ seeds ∧ e.to_artifact_id ∉ seeds) ∧
      (e.from_artifact_id ∈ neighbor_ids edges_at cap seeds ∧ e.to_artifact_id ∈ seeds ∨
        e.from_artifact_id ∈ seeds ∧ e.to_artifact_id ∈ neighbor_ids edges_at cap seeds) := by
  have hedge : is_dependency e = true ∧ e.from_artifact_id ∈ seeds ∧ e.to_artifact_id ∉ seeds := by
    simpa [leaves] using (List.mem_filter.1 (List.mem_of_mem_take h)).2
  refine ⟨hedge.2, .inr ⟨hedge.2.1, ?_⟩⟩
  exact List.mem_append_right _ (List.mem_map_of_mem h)

end Reads

/-! The order in which the edge rows come has no part in it. -/

section RowOrder

/-- What the blast radius reads of an edge. -/
def EdgeRow.bare (e : EdgeRow) : EdgeRow := { e with confidence := none, source := none }

def BLAST_TYPES : List EdgeType := [.calls, .imports, .tests, .defined_in]

theorem EdgeRow.bare_eq_of_order {a b : EdgeRow} (ha : a.edge_type ∈ BLAST_TYPES) (hb : b.edge_type ∈ BLAST_TYPES)
    (h : a.order = b.order) : a.bare = b.bare := by
  have htypes : ∀ t ∈ BLAST_TYPES, ∀ t' ∈ BLAST_TYPES, t.text = t'.text → t = t' := by decide
  have htrust : ∀ c c' : TrustClass, c.text = c'.text → c = c' := by
    intro c c'
    cases c <;> cases c' <;> decide
  simp only [EdgeRow.order, toLex_inj, Prod.mk.injEq] at h
  obtain ⟨hfrom, hto, htype, hclass⟩ := h
  simp only [EdgeRow.bare, EdgeRow.mk.injEq]
  exact ⟨hfrom, hto, htypes _ ha _ hb htype, trivial, trivial, htrust _ _ hclass⟩

theorem sorted_bare {xs ys : List EdgeRow} (hperm : xs.Perm ys) (htypes : ∀ e ∈ xs, e.edge_type ∈ BLAST_TYPES) :
    (sorted EdgeRow.le xs).map EdgeRow.bare = (sorted EdgeRow.le ys).map EdgeRow.bare := by
  have hsorted : ∀ zs : List EdgeRow,
      ((sorted EdgeRow.le zs).map EdgeRow.bare).Pairwise fun a b => a.order ≤ b.order := by
    intro zs
    rw [List.pairwise_map]
    have hle : ∀ a b : EdgeRow, a.le b = true ↔ a.order ≤ b.order := fun a b => decide_eq_true_iff
    exact pairwise_sorted hle zs
  refine List.Perm.eq_of_pairwise ?_ (hsorted xs) (hsorted ys) ?_
  · intro a b ha hb hab hba
    obtain ⟨x, hx, rfl⟩ := List.mem_map.1 ha
    obtain ⟨y, hy, rfl⟩ := List.mem_map.1 hb
    exact EdgeRow.bare_eq_of_order (htypes x (mem_sorted.1 hx)) (htypes y (hperm.mem_iff.2 (mem_sorted.1 hy)))
      (le_antisymm hab hba)
  · exact ((sorted_perm xs).trans (hperm.trans (sorted_perm ys).symm)).map _

theorem filter_bare {xs ys : List EdgeRow} (h : xs.map EdgeRow.bare = ys.map EdgeRow.bare) (keep : EdgeRow → Bool)
    (hkeep : ∀ e, keep e.bare = keep e) : (xs.filter keep).map EdgeRow.bare = (ys.filter keep).map EdgeRow.bare := by
  have hcomp : keep ∘ EdgeRow.bare = keep := funext hkeep
  have hfilter : ∀ zs : List EdgeRow, (zs.filter keep).map EdgeRow.bare = (zs.map EdgeRow.bare).filter keep := by
    intro zs
    rw [List.filter_map, hcomp]
  rw [hfilter, hfilter, h]

/-- Reads of the blast radius that differ in what it does not look at. -/
def SameReads (edges_at edges_at' : List Uuid → List EdgeType → List EdgeRow) : Prop :=
  ∀ ids types, (∀ t ∈ types, t ∈ BLAST_TYPES) →
    (edges_at ids types).map EdgeRow.bare = (edges_at' ids types).map EdgeRow.bare

theorem sameReads_of_perm {db db' : Database} (hperm : db'.edges.Perm db.edges) (build_seq : Nat) :
    SameReads (admitted_edges_at db' build_seq) (admitted_edges_at db build_seq) := by
  intro ids types htypes
  unfold admitted_edges_at fetch_edges_touching
  apply filter_bare _ _ fun _ => rfl
  apply sorted_bare
  · unfold member_edges
    exact ((hperm.filter _).map _).filter _
  · intro e he
    have hkept := (List.mem_filter.1 he).2
    simp only [Bool.and_eq_true, Option.all_some, List.contains_iff_mem] at hkept
    exact htypes _ hkept.2

theorem map_bare {β : Type} {xs ys : List EdgeRow} (h : xs.map EdgeRow.bare = ys.map EdgeRow.bare) (f : EdgeRow → β)
    (hf : ∀ e, f e.bare = f e) : xs.map f = ys.map f := by
  have hcomp : f ∘ EdgeRow.bare = f := funext hf
  have hmap : ∀ zs : List EdgeRow, zs.map f = (zs.map EdgeRow.bare).map f := by
    intro zs
    rw [List.map_map, hcomp]
  rw [hmap xs, hmap ys, h]

theorem filterMap_bare {β : Type} {xs ys : List EdgeRow} (h : xs.map EdgeRow.bare = ys.map EdgeRow.bare)
    (f : EdgeRow → Option β) (hf : ∀ e, f e.bare = f e) : xs.filterMap f = ys.filterMap f := by
  have hcomp : f ∘ EdgeRow.bare = f := funext hf
  have hmap : ∀ zs : List EdgeRow, zs.filterMap f = (zs.map EdgeRow.bare).filterMap f := by
    intro zs
    rw [List.filterMap_map, hcomp]
  rw [hmap xs, hmap ys, h]

theorem foldl_bare {β : Type} {xs ys : List EdgeRow} (h : xs.map EdgeRow.bare = ys.map EdgeRow.bare)
    (f : β → EdgeRow → β) (hf : ∀ b e, f b e.bare = f b e) (b : β) : xs.foldl f b = ys.foldl f b := by
  have hfold : ∀ zs : List EdgeRow, zs.foldl f b = (zs.map EdgeRow.bare).foldl f b := by
    intro zs
    rw [List.foldl_map]
    simp only [hf]
  rw [hfold xs, hfold ys, h]

section Same

variable {edges_at edges_at' : List Uuid → List EdgeType → List EdgeRow} (h : SameReads edges_at edges_at') (cap : Nat)
  (seeds : List Uuid)

include h

theorem same_seed_edges :
    (seed_edges edges_at seeds).map EdgeRow.bare = (seed_edges edges_at' seeds).map EdgeRow.bare := by
  apply h
  simp [BLAST_TYPES]

/-- The edges taken in one direction. -/
theorem same_taken (keep : EdgeRow → Bool) (hkeep : ∀ e, keep e.bare = keep e) :
    (((seed_edges edges_at seeds).filter keep).take cap).map EdgeRow.bare =
      (((seed_edges edges_at' seeds).filter keep).take cap).map EdgeRow.bare := by
  rw [List.map_take, List.map_take, filter_bare (same_seed_edges h seeds) keep hkeep]

theorem same_neighbor_ids : neighbor_ids edges_at cap seeds = neighbor_ids edges_at' cap seeds := by
  have hcallers := map_bare (same_taken h cap seeds (fun e => is_dependency e && enters seeds e) fun _ => rfl)
    EdgeRow.from_artifact_id fun _ => rfl
  have htests := map_bare (same_taken h cap seeds (fun e => e.edge_type == .tests && enters seeds e) fun _ => rfl)
    EdgeRow.from_artifact_id fun _ => rfl
  have hcallees := map_bare (same_taken h cap seeds (fun e => is_dependency e && leaves seeds e) fun _ => rfl)
    EdgeRow.to_artifact_id fun _ => rfl
  unfold neighbor_ids caller_edges test_edges callee_edges
  rw [List.map_append, List.map_append, hcallers, htests, hcallees]

theorem same_seed_files : seed_files edges_at seeds = seed_files edges_at' seeds :=
  foldl_bare (filter_bare (same_seed_edges h seeds) (fun e => e.edge_type == .defined_in) fun _ => rfl) _ (fun _ _ => rfl) _

theorem same_corroboration_edges :
    (corroboration_edges edges_at cap seeds).map EdgeRow.bare = (corroboration_edges edges_at' cap seeds).map EdgeRow.bare := by
  unfold corroboration_edges corroboration_seeds
  rw [same_neighbor_ids h, same_seed_files h]
  apply h
  simp [BLAST_TYPES]

theorem same_defined_in : defined_in edges_at cap seeds = defined_in edges_at' cap seeds := by
  unfold defined_in
  rw [same_seed_files h]
  exact foldl_bare (filter_bare (same_corroboration_edges h cap seeds) (fun e => e.edge_type == .defined_in) fun _ => rfl)
    _ (fun _ _ => rfl) _

theorem same_import_pairs : import_pairs edges_at cap seeds = import_pairs edges_at' cap seeds := by
  apply map_bare _ _ fun _ => rfl
  apply filter_bare _ _ fun _ => rfl
  rw [List.map_append, List.map_append, same_seed_edges h, same_corroboration_edges h]

variable (hydrate : List Uuid → Uuid → Option ArtifactRow)

theorem same_blast_entity (e : EdgeRow) (id : Uuid) :
    blast_entity edges_at cap seeds hydrate e id = blast_entity edges_at' cap seeds hydrate e id := by
  unfold blast_entity blast_rows
  rw [same_neighbor_ids h, same_defined_in h, same_import_pairs h]

theorem same_blast_radius (str_uuid : Uuid → String) :
    blast_radius edges_at cap seeds hydrate str_uuid = blast_radius edges_at' cap seeds hydrate str_uuid := by
  have hentries : ∀ (keep : EdgeRow → Bool) (far : EdgeRow → Uuid), (∀ e, keep e.bare = keep e) →
      (∀ e, far e.bare = far e) →
      (((seed_edges edges_at seeds).filter keep).take cap).filterMap
          (fun e => blast_entity edges_at cap seeds hydrate e (far e)) =
        (((seed_edges edges_at' seeds).filter keep).take cap).filterMap
          (fun e => blast_entity edges_at' cap seeds hydrate e (far e)) := by
    intro keep far hkeep hfar
    simp only [same_blast_entity h cap seeds hydrate]
    apply filterMap_bare (same_taken h cap seeds keep hkeep)
    intro e
    rw [hfar]
    rfl
  unfold blast_radius caller_edges callee_edges test_edges corroboration_seeds
  dsimp only
  rw [hentries _ _ (fun _ => rfl) fun _ => rfl, hentries _ _ (fun _ => rfl) fun _ => rfl,
    hentries _ _ (fun _ => rfl) fun _ => rfl, same_neighbor_ids h, same_seed_files h]

end Same

section Answer

variable {deps : TaskContextDeps} {db : Database} {rows : List KnowledgeEdge}
  (hsearch : ∀ query build_seq top, deps.search { db with edges := rows } query build_seq top =
    deps.search db query build_seq top)

include hsearch

theorem same_search_rows : search_rows deps { db with edges := rows } = search_rows deps db := by
  funext ctx query top
  unfold search_rows
  rw [hsearch]
  rfl

theorem same_resolve_entities_and_rows :
    resolve_entities_and_rows deps { db with edges := rows } = resolve_entities_and_rows deps db := by
  have hrows := same_search_rows hsearch
  have hsymbol : resolve_symbol deps { db with edges := rows } = resolve_symbol deps db := by
    funext ctx symbol
    unfold resolve_symbol
    rw [hrows]
  have hfile : resolve_file deps { db with edges := rows } = resolve_file deps db := by
    funext ctx path
    unfold resolve_file
    rw [hrows]
  have htask : task_rows deps { db with edges := rows } = task_rows deps db := by
    funext ctx top
    unfold task_rows
    rw [hrows]
  funext ctx broadened
  unfold resolve_entities_and_rows resolve_from_hints
  rw [hsymbol, hfile, htask]
  rfl

theorem same_fan_out (hperm : rows.Perm db.edges) : fan_out deps { db with edges := rows } = fan_out deps db := by
  have hresolve := same_resolve_entities_and_rows hsearch
  have htask : task_rows deps { db with edges := rows } = task_rows deps db := by
    funext ctx top
    unfold task_rows
    rw [same_search_rows hsearch]
  have hblast : blast_radius_node deps { db with edges := rows } = blast_radius_node deps db := by
    funext ctx broadened
    unfold blast_radius_node
    rw [hresolve]
    have hreads : SameReads (admitted_edges_at { db with edges := rows } ctx.build_seq)
        (admitted_edges_at db ctx.build_seq) := sameReads_of_perm hperm _
    simp only [same_blast_radius hreads]
    rfl
  funext ctx broadened
  unfold fan_out conventions_node similar_prior_changes_node
  rw [hresolve, htask, hblast]

theorem same_get_task_context (hperm : rows.Perm db.edges) :
    get_task_context deps { db with edges := rows } = get_task_context deps db := by
  funext request requester
  unfold get_task_context run_task_context_graph
  rw [same_fan_out hsearch hperm]
  rfl

end Answer

end RowOrder

/-- The member edges that the trust floor admits. -/
def floor_edges (db : Database) (build_seq : Nat) : List EdgeRow :=
  (member_edges db build_seq).filter fun e => admits e.trust_class .EXTRACTED false

theorem readsEdges_admitted (db : Database) (build_seq : Nat) :
    ReadsEdges (admitted_edges_at db build_seq) (floor_edges db build_seq) := by
  intro ids types e
  simp only [admitted_edges_at, floor_edges, List.mem_filter, mem_fetch_edges_touching, Option.mem_some_iff,
    forall_eq']
  constructor
  · exact fun h => ⟨⟨h.1.1, h.2⟩, h.1.2⟩
  · exact fun h => ⟨⟨h.1.1, h.2⟩, h.1.2⟩

theorem seed_edges_subperm (db : Database) (build_seq : Nat) (seeds : List Uuid) :
    (seed_edges (admitted_edges_at db build_seq) seeds).Subperm (floor_edges db build_seq) := by
  unfold seed_edges admitted_edges_at fetch_edges_touching floor_edges
  refine ((sorted_perm _).filter _).subperm.trans ?_
  rw [List.filter_comm]
  exact List.filter_sublist.subperm

theorem artifact_id_of_hydrate {deps : TaskContextDeps} {db : Database} {ctx : TaskContextCtx} (ids : List Uuid) (id : Uuid)
    (row : ArtifactRow) (h : hydrate_allowed deps db ctx ids id = some row) : row.artifact_id = id := by
  simpa using List.find?_some h

/-- The entries of one direction, each beside its edge. -/
def EdgesLabelled (edges : List EdgeRow) (seeds : List Uuid) (far near : EdgeRow → Uuid)
    (entities : List BlastRadiusEntity) : Prop :=
  ∃ found : List EdgeRow, found.Subperm edges ∧ List.Forall₂ (fun e entity =>
    Labelled edges seeds far near e entity.entity_id entity.edge_type entity.confidence_tier) found entities

/-- Every call of a response is some call edge between its scope and the outside, and labelled for what it is. -/
structure CallsLabelled (edges : List EdgeRow) (seeds : List Uuid) (blast : BlastRadius) : Prop where
  callers : EdgesLabelled edges seeds EdgeRow.from_artifact_id EdgeRow.to_artifact_id blast.callers
  callees : EdgesLabelled edges seeds EdgeRow.to_artifact_id EdgeRow.from_artifact_id blast.callees
  tests : ∀ entity ∈ blast.tests, entity.edge_type = .tests

section Pass

variable {deps : TaskContextDeps} {db : Database} {ctx : TaskContextCtx} {broadened : Bool} {pass : TaskContextPass}

/-- What a pass finds is labelled, and so is all of it that is kept and sent. -/
theorem edgesLabelled_of_kept {edges : List EdgeRow} {seeds : List Uuid} {far near : EdgeRow → Uuid} {paths : List String}
    {found : List EdgeRow} {entries kept : List BlastEntry} {entities : List BlastRadiusEntity}
    (hsubperm : found.Subperm edges)
    (hfound : List.Forall₂ (fun e entry => Labelled edges seeds far near e entry.entity_id entry.edge_type
      entry.confidence_tier) found entries)
    (hkept : kept.Sublist entries) (hwired : List.Forall₂ (Wired paths) kept entities) :
    EdgesLabelled edges seeds far near entities := by
  obtain ⟨found', hsub, hfound'⟩ := forall₂_sublist hfound hkept
  refine ⟨found', hsub.subperm.trans hsubperm, forall₂_chain hfound' hwired ?_⟩
  intro e entry entity hlabel hwire
  have hid : entity.entity_id = entry.entity_id := congrArg BlastRadiusEntity.entity_id hwire.same
  have htype : entity.edge_type = entry.edge_type := congrArg BlastRadiusEntity.edge_type hwire.same
  have htier : entity.confidence_tier = entry.confidence_tier := congrArg BlastRadiusEntity.confidence_tier hwire.same
  rwa [hid, htype, htier]

/-- The three lists of a pass. -/
theorem blast_labelled (h : fan_out deps db ctx broadened = some pass) :
    (∃ found : List EdgeRow, found.Subperm (floor_edges db ctx.build_seq) ∧
      List.Forall₂ (fun e entry => Labelled (floor_edges db ctx.build_seq) (pass.scope.entities.map (·.entity_id))
        EdgeRow.from_artifact_id EdgeRow.to_artifact_id e entry.entity_id entry.edge_type entry.confidence_tier)
        found pass.blast.callers) ∧
    (∃ found : List EdgeRow, found.Subperm (floor_edges db ctx.build_seq) ∧
      List.Forall₂ (fun e entry => Labelled (floor_edges db ctx.build_seq) (pass.scope.entities.map (·.entity_id))
        EdgeRow.to_artifact_id EdgeRow.from_artifact_id e entry.entity_id entry.edge_type entry.confidence_tier)
        found pass.blast.callees) ∧
    ∀ entry ∈ pass.blast.tests, entry.edge_type = .tests := by
  rw [blast_of_fan_out h]
  generalize pass.scope.entities.map (·.entity_id) = seeds
  have hread := readsEdges_admitted db ctx.build_seq
  have hsub := seed_edges_subperm db ctx.build_seq seeds
  unfold blast_radius
  by_cases hseeds : seeds.isEmpty = true
  · rw [if_pos hseeds]
    exact ⟨⟨[], List.nil_subperm, .nil⟩, ⟨[], List.nil_subperm, .nil⟩, fun _ hentry => by cases hentry⟩
  rw [if_neg hseeds]
  refine ⟨?_, ?_, ?_⟩
  · obtain ⟨found, hfound, hlabels⟩ := entries_labelled hread artifact_id_of_hydrate deps.platform.str_uuid
      (fun e he => caller_taken he)
    exact ⟨found, hfound.trans (((List.take_sublist _ _).trans List.filter_sublist).subperm.trans hsub), hlabels⟩
  · obtain ⟨found, hfound, hlabels⟩ := entries_labelled hread artifact_id_of_hydrate deps.platform.str_uuid
      (fun e he => callee_taken he)
    exact ⟨found, hfound.trans (((List.take_sublist _ _).trans List.filter_sublist).subperm.trans hsub), hlabels⟩
  · intro entry hentry
    obtain ⟨e, he, hentry⟩ := List.mem_filterMap.1 ((sorted_perm _).mem_iff.1 hentry)
    obtain ⟨row, -, rfl⟩ := Option.map_eq_some_iff.1 hentry
    have htype := (List.mem_filter.1 (List.mem_of_mem_take he)).2
    rw [Bool.and_eq_true, beq_iff_eq] at htype
    exact htype.1

end Pass

/-- Every call edge returned is labelled deterministic only where it is corroborated, and always where it is and its ends
have one file each; the order of the edge rows has no part in the answer. -/
theorem get_task_context_labels {deps : TaskContextDeps} {db : Database} {request : GetTaskContextRequest}
    {requester : Requester} {response : GetTaskContextResponse}
    (h : get_task_context deps db request requester = .ok (some response)) :
    ∃ active, ∃ scope : ScopeResolution, fetch_active_version db = some active ∧
      response.resolved_scope.entities = (floor_scope request.confidence_floor scope).entities ∧
      CallsLabelled (floor_edges db active.build_seq) (scope.entities.map (·.entity_id)) response.blast_radius ∧
      ∀ rows : List KnowledgeEdge, rows.Perm db.edges →
        (∀ query build_seq top, deps.search { db with edges := rows } query build_seq top =
          deps.search db query build_seq top) →
        get_task_context deps { db with edges := rows } request requester = .ok (some response) := by
  obtain ⟨active, pass, broadened, calls_used, hactive, hpass, hresponse⟩ := pass_of_get_task_context h
  obtain ⟨kept, htrimmed⟩ := synthesize_trims deps request pass broadened calls_used
  rw [← hresponse] at htrimmed
  obtain ⟨⟨callers, hcallers, hcaller_labels⟩, ⟨callees, hcallees, hcallee_labels⟩, htests⟩ := blast_labelled hpass
  refine ⟨active, pass.scope, hactive, ?_, ⟨?_, ?_, ?_⟩, ?_⟩
  · rw [htrimmed.carries.resolved_scope]
  · exact edgesLabelled_of_kept hcallers hcaller_labels
      (htrimmed.kept_prefix.callers.sublist.trans List.filter_sublist) htrimmed.carries.callers
  · exact edgesLabelled_of_kept hcallees hcallee_labels
      (htrimmed.kept_prefix.callees.sublist.trans List.filter_sublist) htrimmed.carries.callees
  · have htypes := (List.forall₂_and_left (p := fun entry : BlastEntry => entry.edge_type = .tests) _ _).2 ⟨fun entry hentry =>
      htests entry ((htrimmed.kept_prefix.tests.sublist.trans List.filter_sublist).subset hentry), htrimmed.carries.tests⟩
    intro entity hentity
    obtain ⟨n, hn, rfl⟩ := List.getElem_of_mem hentity
    have hwired := (List.forall₂_iff_get.1 htypes).2 n (by rw [(List.forall₂_iff_get.1 htypes).1]; exact hn) hn
    exact (congrArg BlastRadiusEntity.edge_type hwired.2.same).trans hwired.1
  · intro rows hperm hsearch
    rw [same_get_task_context hsearch hperm, h]

section TwoFiles

/-- An artifact of a public repo. -/
def code_artifact (id source_id : Uuid) (artifact_type : ArtifactType) (title : String) : KnowledgeArtifact :=
  { valid_from_seq := 1, artifact_id := id, artifact_type, source_id, title := some title
    body_text := none, content_hash := none, kb_version := "v1", knowledge_kind := some .source_backed, acl_teams := []
    created_at := 0 }

def code_source (id : Uuid) (source_uri path : String) : SourceItem :=
  { source_id := id, source_type := .github_code, source_uri, source_version := "1"
    repo := some "acme/app", branch := some "main", path := some path, external_id := none, content_hash := ""
    last_seen_at := none, acl_teams := [], is_deleted := false, created_at := 0 }

def code_edge (id from_artifact_id to_artifact_id : Uuid) (edge_type : EdgeType) : KnowledgeEdge :=
  { valid_from_seq := 1, edge_id := id, from_artifact_id, to_artifact_id, edge_type
    confidence := some 1, source := some .graphify, kb_version := "v1", trust_class := .EXTRACTED }

/-- `run` calls `step`; the edges say `run` is defined in the files `also` name, and in `step.py`. -/
def run_database (also : List Uuid) : Database :=
  { source_items := [code_source 10 "github://acme/app/run.py" "run.py", code_source 11 "github://acme/app/step.py" "step.py"]
    artifacts := [code_artifact 1 10 .code_symbol "run", code_artifact 2 11 .code_symbol "step",
      code_artifact 10 10 .code_file "run.py", code_artifact 11 11 .code_file "step.py"]
    edges := also.map (fun file => code_edge (20 + file) 1 file .defined_in) ++
      [code_edge 1 1 2 .calls, code_edge 2 1 11 .defined_in, code_edge 3 2 11 .defined_in]
    runs := [{ build_id := 0, kb_version := "v1", build_seq := 1, status := .active, started_at := 0 }] }

/-- The search knows `step`. -/
def run_deps : TaskContextDeps :=
  { BrokerDeps.plain with
    search := fun _ _ _ _ => [{ artifact_id := 2, score := 1 }]
    json_loads := fun _ => none
    uuid_of_text := fun _ => none
    response_dump_json := dump_response }

def run_request : GetTaskContextRequest := { task_description := "step" }

/-- The calls a response names as callers, with their labels. -/
def GetTaskContextResponse.caller_labels (response : GetTaskContextResponse) : List (Uuid × EdgeType × ConfidenceTier) :=
  response.blast_radius.callers.map fun entity => (entity.entity_id, entity.edge_type, entity.confidence_tier)

/-- The response as it is measured: `run` calls `step`, as far as the one file the broker takes for `run` says. -/
def run_measured : GetTaskContextResponse :=
  { resolved_scope :=
      { entities := [{ entity_id := 2, path := "step.py", symbol := some "step", resolution_source := .search
                       confidence_tier := .interpreted }]
        ambiguous_candidates := [] }
    referenced_paths := ["run.py"]
    blast_radius :=
      { callers := [{ entity_id := 1, path_ref := 0, symbol := some "run", edge_type := .calls
                      confidence_tier := .interpreted, caveat := some (uncorroborated_call "step.py") }]
        callees := []
        tests := [] }
    conventions := []
    similar_prior_changes := []
    evidence_ids := [1, 2]
    open_questions := []
    budget_used := { tokens := 0, calls := 6 } }

/-- Of two files for `run` the broker takes the one it reads first, and that one does not import `step.py`. -/
theorem run_pass : (fan_out run_deps (run_database [10])
      { requester := outsider, request := run_request, build_seq := 1 } false).map (fun pass =>
        (pass.scope.unresolved, pass.calls,
          measured run_deps run_request pass false pass.calls (assembled run_request pass))) =
    some (false, 6, run_measured) := by
  decide +kernel

theorem length_uncorroborated_call (target_path : String) :
    (uncorroborated_call target_path).length = 133 + target_path.length := by
  have hhead : "`calls` edge is not corroborated by an import of ".length = 49 := by
    apply String.length_ofList.trans
    rfl
  have htail :
      "; a same-named symbol elsewhere may be the real target — verify before relying on it".length = 84 := by
    apply String.length_ofList.trans
    rfl
  unfold uncorroborated_call
  rw [String.length_append, String.length_append, hhead, htail]
  omega

theorem length_run_measured : (dump_response run_measured).length = 926 := by
  have hzero : (toString 0).length = 1 := rfl
  have hcalls : (toString 6).length = 1 := rfl
  simp only [dump_response, run_measured, List.map_cons, List.map_nil, -String.reduceAppend]
  simp only [dump_model, dump_list, dump_uuids, dump_entity, dump_wire, dump_optional, ConfidenceTier.dump, EdgeType.text,
    dump_quoted, List.map_cons, List.map_nil, Option.map_some, Option.getD_some, join, String.intercalate_nil,
    String.intercalate_singleton, String.intercalate_cons_cons, String.length_append, length_uncorroborated_call, hzero, hcalls,
    length_small_uuid_text (show 1 < 10 by decide), length_small_uuid_text (show 2 < 10 by decide), -String.reduceAppend]
  simp only [← String.length_toList, String.reduceToList, List.length_cons, List.length_nil]

/-- The one pass that is made is the answer, untrimmed. -/
theorem run_response :
    ∃ response, get_task_context run_deps (run_database [10]) run_request outsider = .ok (some response) ∧
      response.caller_labels = [(1, .calls, .interpreted)] := by
  obtain ⟨pass, hpass, hvalue⟩ := Option.map_eq_some_iff.1 run_pass
  obtain ⟨hresolved, hvalue⟩ := Prod.mk.inj hvalue
  obtain ⟨hcalls, hmeasured⟩ := Prod.mk.inj hvalue
  refine ⟨synthesize run_deps run_request pass false pass.calls, ?_, ?_⟩
  · have hactive : fetch_active_version (run_database [10]) = some { kb_version := "v1", build_seq := 1 } := rfl
    unfold get_task_context
    rw [hactive]
    simp only [run_task_context_graph, hpass, Option.bind_eq_bind, Option.bind_some, hresolved]
    rfl
  · unfold synthesize
    dsimp only
    rw [Kept.trim_of_fits]
    · rw [hmeasured]
      rfl
    · have hdump : run_deps.response_dump_json = dump_response := rfl
      have hcap : response_cap run_deps run_request = 8000 := rfl
      rw [decide_eq_true_iff, hmeasured, hdump, hcap, estimate_tokens, length_run_measured]
      decide

theorem get_task_context_labels_run :
    ∃ response, get_task_context run_deps (run_database [10]) run_request outsider = .ok (some response) ∧
      ∃ active, ∃ scope : ScopeResolution, fetch_active_version (run_database [10]) = some active ∧
        response.resolved_scope.entities = (floor_scope run_request.confidence_floor scope).entities ∧
        CallsLabelled (floor_edges (run_database [10]) active.build_seq) (scope.entities.map (·.entity_id))
          response.blast_radius ∧
        ∀ rows : List KnowledgeEdge, rows.Perm (run_database [10]).edges →
          (∀ query build_seq top, run_deps.search { run_database [10] with edges := rows } query build_seq top =
            run_deps.search (run_database [10]) query build_seq top) →
          get_task_context run_deps { run_database [10] with edges := rows } run_request outsider = .ok (some response) := by
  obtain ⟨response, hresponse, -⟩ := run_response
  exact ⟨response, hresponse, get_task_context_labels hresponse⟩

/-- The edges put `run` beside `step` in `step.py`, and into a file of its own too: the call is labelled unsure. -/
theorem run_label_second_file :
    (∃ response, get_task_context run_deps (run_database [10]) run_request outsider = .ok (some response) ∧
      response.caller_labels = [(1, .calls, .interpreted)]) ∧
    Corroborated (floor_edges (run_database [10]) 1) 1 2 := by
  refine ⟨run_response, 11, 11, ?_, ?_, .inl rfl⟩
  · exact ⟨edge_row (code_edge 2 1 11 .defined_in), by decide +kernel, rfl, rfl, rfl⟩
  · exact ⟨edge_row (code_edge 3 2 11 .defined_in), by decide +kernel, rfl, rfl, rfl⟩

end TwoFiles

end AgenticKb.ContextBroker

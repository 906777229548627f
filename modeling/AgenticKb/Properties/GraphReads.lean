import Mathlib.Data.List.Find
import AgenticKb.ContextBroker.Expand

open AgenticKb.Lib

namespace AgenticKb.ContextBroker

section Visible

variable (p : Platform) (db : Database) (build_seq : Nat) (requester : Requester)

/-- The members of a build that the requester may see. -/
def visible_rows : List ArtifactRow :=
  filter_artifacts requester ((member_artifacts db build_seq).map (artifact_row p db))

/-- The requester may see this member. -/
def shown (id : Uuid) : Bool := (visible_rows p db build_seq requester).any fun row => row.artifact_id == id

/-- The member edges between two such artifacts, in the order of the query. -/
def visible_edges : List EdgeRow :=
  (sorted EdgeRow.le (member_edges db build_seq)).filter <|
    between EdgeRow.from_artifact_id EdgeRow.to_artifact_id (shown p db build_seq requester)

/-- The row a requester sees under an id. -/
def visible_row (id : Uuid) : Option ArtifactRow :=
  (visible_rows p db build_seq requester).reverse.find? fun row => row.artifact_id == id

variable {p db build_seq requester}

theorem allowed_by_id_eq {ids : List Uuid} {id : Uuid} (hid : id ∈ ids) :
    allowed_by_id p db build_seq requester ids id = visible_row p db build_seq requester id := by
  have hrows : filter_artifacts requester (fetch_artifacts p db ids build_seq) =
      (visible_rows p db build_seq requester).filter fun row => ids.contains row.artifact_id := by
    rw [filter_artifacts, fetch_artifacts, visible_rows, filter_artifacts, List.filter_comm]
  rw [allowed_by_id, hrows, ← List.filter_reverse, List.find?_filter, visible_row]
  refine List.find?_congr fun row _ => ?_
  by_cases heq : row.artifact_id = id
  · simp [heq, hid]
  · simp [heq]

theorem artifact_id_of_visible_row {id : Uuid} {row : ArtifactRow}
    (h : visible_row p db build_seq requester id = some row) :
    row ∈ visible_rows p db build_seq requester ∧ row.artifact_id = id :=
  ⟨List.mem_reverse.1 (List.mem_of_find?_eq_some h), by simpa using List.find?_some h⟩

theorem shown_iff {id : Uuid} :
    shown p db build_seq requester id = true ↔ ∃ row, visible_row p db build_seq requester id = some row := by
  rw [shown, visible_row, ← Option.isSome_iff_exists, List.find?_isSome, List.any_eq_true]
  simp

/-- Of the nodes of a hop the requester is given exactly those shown. -/
theorem filterMap_allowed_by_id {α : Type} (hops : List (Hop Uuid EdgeRow)) (f : Hop Uuid EdgeRow → ArtifactRow → α) :
    (hops.filterMap fun hop =>
        (allowed_by_id p db build_seq requester (hops.map (·.node)) hop.node).map (f hop)) =
      (hops.filter fun hop => shown p db build_seq requester hop.node).filterMap fun hop =>
        (visible_row p db build_seq requester hop.node).map (f hop) := by
  rw [List.filterMap_filter]
  refine List.filterMap_congr fun hop hhop => ?_
  rw [allowed_by_id_eq (List.mem_map_of_mem hhop)]
  cases hrow : visible_row p db build_seq requester hop.node with
  | none =>
    have hhidden : shown p db build_seq requester hop.node = false := by
      rw [← Bool.not_eq_true, shown_iff, hrow]
      simp
    simp [hhidden]
  | some row => simp [shown_iff.2 ⟨row, hrow⟩]

end Visible

/-- Two databases that a requester cannot tell apart: they serve one version, and agree on the members of it
that the requester may see and on the member edges between these. -/
structure SameVisible (p : Platform) (requester : Requester) (db db' : Database) : Prop where
  active : fetch_active_version db = fetch_active_version db'
  rows : ∀ active ∈ fetch_active_version db,
    visible_rows p db active.build_seq requester = visible_rows p db' active.build_seq requester
  edges : ∀ active ∈ fetch_active_version db,
    visible_edges p db active.build_seq requester = visible_edges p db' active.build_seq requester

instance (p : Platform) (requester : Requester) (db db' : Database) :
    Decidable (SameVisible p requester db db') :=
  decidable_of_iff
    (fetch_active_version db = fetch_active_version db' ∧
      (∀ active ∈ fetch_active_version db,
        visible_rows p db active.build_seq requester = visible_rows p db' active.build_seq requester) ∧
      ∀ active ∈ fetch_active_version db,
        visible_edges p db active.build_seq requester = visible_edges p db' active.build_seq requester)
    ⟨fun h => ⟨h.1, h.2.1, h.2.2⟩, fun h => ⟨h.active, h.rows, h.edges⟩⟩

section Agreement

variable {deps : BrokerDeps} {db db' : Database} {build_seq : Nat} {requester : Requester}

/-- Agreement at one build. -/
structure Agree (p : Platform) (requester : Requester) (db db' : Database) (build_seq : Nat) : Prop where
  rows : visible_rows p db build_seq requester = visible_rows p db' build_seq requester
  edges : visible_edges p db build_seq requester = visible_edges p db' build_seq requester

variable {p : Platform}

theorem Agree.shown (h : Agree p requester db db' build_seq) :
    shown p db build_seq requester = shown p db' build_seq requester := by
  funext id
  rw [ContextBroker.shown, ContextBroker.shown, h.rows]

theorem Agree.visible_row (h : Agree p requester db db' build_seq) :
    visible_row p db build_seq requester = visible_row p db' build_seq requester := by
  funext id
  rw [ContextBroker.visible_row, ContextBroker.visible_row, h.rows]

/-- One level meets the same shown nodes in both. -/
theorem Agree.admitted_hops (h : Agree p requester db db' build_seq) (edge_types : Option (List EdgeType))
    (trust_floor : TrustFloor) (include_inferred : Bool) {frontier visited visited' : List Uuid}
    (hfrontier : ∀ v ∈ frontier, ContextBroker.shown p db build_seq requester v = true)
    (hvisited : ∀ v, ContextBroker.shown p db build_seq requester v = true → (v ∈ visited ↔ v ∈ visited')) :
    SameView (ContextBroker.shown p db build_seq requester)
      (admitted_hops db build_seq edge_types trust_floor include_inferred frontier visited)
      (admitted_hops db' build_seq edge_types trust_floor include_inferred frontier visited') := by
  have hedges : ∀ db : Database, (((fetch_edges_touching db frontier build_seq edge_types).filter fun e =>
        admits e.trust_class trust_floor include_inferred).filter
          (between EdgeRow.from_artifact_id EdgeRow.to_artifact_id (ContextBroker.shown p db build_seq requester))) =
      ((visible_edges p db build_seq requester).filter fun e =>
        (frontier.contains e.from_artifact_id || frontier.contains e.to_artifact_id) &&
          edge_types.all fun types => types.contains e.edge_type).filter fun e =>
            admits e.trust_class trust_floor include_inferred := by
    intro db
    rw [List.filter_comm, filter_fetch_edges_touching]
    rfl
  refine scan_congr hfrontier ?_ hvisited
  rw [hedges db, h.shown, hedges db', h.edges]

end Agreement

section Neighbors

variable {deps : BrokerDeps} {db db' : Database} {build_seq : Nat} {requester : Requester}
  {request : GetNeighborsRequest}

/-- Two walks that differ at most in the hidden nodes they have met. -/
structure SameWalk (shown : Uuid → Bool) (w w' : Walk) : Prop where
  frontier : w.frontier = w'.frontier
  admitted : ∀ v ∈ w.frontier, shown v = true
  visited : ∀ v, shown v = true → (v ∈ w.visited ↔ v ∈ w'.visited)
  found : w.found = w'.found

theorem Agree.walk_hop (h : Agree deps.platform requester db db' build_seq) {w w' : Walk} (distance : Nat)
    (hwalk : SameWalk (ContextBroker.shown deps.platform db build_seq requester) w w') :
    SameWalk (ContextBroker.shown deps.platform db build_seq requester)
      (walk_hop deps db build_seq requester request w distance)
      (walk_hop deps db' build_seq requester request w' distance) := by
  unfold ContextBroker.walk_hop
  rw [← hwalk.frontier, ← hwalk.found]
  by_cases hstop : (w.frontier.isEmpty || decide (deps.settings.max_graph_neighbors ≤ w.found.length)) = true
  · rw [if_pos hstop, if_pos hstop]
    exact hwalk
  · rw [if_neg hstop, if_neg hstop]
    have hview := h.admitted_hops (if request.edge_types.isEmpty then none else some request.edge_types)
      request.trust_floor request.include_inferred hwalk.admitted hwalk.visited
    have hfound : ∀ hops hops' : List (Hop Uuid EdgeRow),
        (hops.filter fun hop => ContextBroker.shown deps.platform db build_seq requester hop.node) =
          (hops'.filter fun hop => ContextBroker.shown deps.platform db build_seq requester hop.node) →
        (hops.filterMap fun hop =>
            (allowed_by_id deps.platform db build_seq requester (hops.map (·.node)) hop.node).map
              fun row => { hop, distance, row : Found }) =
          hops'.filterMap fun hop =>
            (allowed_by_id deps.platform db' build_seq requester (hops'.map (·.node)) hop.node).map
              fun row => { hop, distance, row : Found } := by
      intro hops hops' hsame
      rw [filterMap_allowed_by_id hops fun hop row => { hop, distance, row : Found },
        filterMap_allowed_by_id hops' fun hop row => { hop, distance, row : Found }, hsame, h.shown, h.visible_row]
    have hsame := hfound _ _ hview.hops
    dsimp only
    rw [hsame]
    refine ⟨rfl, ?_, hview.visited, rfl⟩
    intro v hv
    obtain ⟨found, hmem, rfl⟩ := List.mem_map.1 hv
    rw [← hsame] at hmem
    obtain ⟨hop, hhop, hrow⟩ := List.mem_filterMap.1 (List.mem_of_mem_take hmem)
    rw [allowed_by_id_eq (List.mem_map_of_mem hhop)] at hrow
    obtain ⟨row, hvisible, rfl⟩ := Option.map_eq_some_iff.1 hrow
    exact shown_iff.2 ⟨row, hvisible⟩

theorem Agree.start_walk (h : Agree deps.platform requester db db' build_seq) :
    SameWalk (ContextBroker.shown deps.platform db build_seq requester)
      (start_walk deps db build_seq requester request) (start_walk deps db' build_seq requester request) := by
  have hroot : ∀ db : Database, filter_artifacts requester
      (fetch_artifacts deps.platform db [request.artifact_id] build_seq) =
        (visible_rows deps.platform db build_seq requester).filter fun row =>
          [request.artifact_id].contains row.artifact_id := by
    intro db
    rw [filter_artifacts, fetch_artifacts, visible_rows, filter_artifacts, List.filter_comm]
  unfold ContextBroker.start_walk
  rw [hroot, hroot, h.rows]
  refine ⟨rfl, fun v hv => ?_, fun _ _ => Iff.rfl, rfl⟩
  dsimp only at hv
  split at hv
  · simp at hv
  · rename_i hsome
    rw [List.isEmpty_iff, List.filter_eq_nil_iff] at hsome
    push Not at hsome
    obtain ⟨row, hrow, hid⟩ := hsome
    rw [List.mem_singleton.1 hv, ContextBroker.shown, h.rows, List.any_eq_true]
    exact ⟨row, hrow, by simpa using hid⟩

/-- The whole walk is the same in both. -/
theorem Agree.walk_graph (h : Agree deps.platform requester db db' build_seq) (request : GetNeighborsRequest) :
    SameWalk (ContextBroker.shown deps.platform db build_seq requester)
      (walk_graph deps db build_seq requester request) (walk_graph deps db' build_seq requester request) := by
  unfold ContextBroker.walk_graph
  generalize List.range' 1 request.depth = distances
  induction distances using List.reverseRecOn with
  | nil => exact h.start_walk
  | append_singleton distances distance ih =>
    rw [List.foldl_append, List.foldl_append]
    exact h.walk_hop distance ih

end Neighbors

section Tiers

variable {deps : BrokerDeps} {db db' : Database} {build_seq : Nat} {requester : Requester} {trust_floor : TrustFloor}
  {include_inferred : Bool}

variable (deps db build_seq requester trust_floor include_inferred) in
/-- The nodes of one level of a tier with the rows the requester is given for them. -/
def level_rows (frontier visited : List Uuid) : List (Uuid × ArtifactRow) :=
  let level := admitted_hops db build_seq none trust_floor include_inferred frontier visited
  level.2.filterMap fun hop =>
    (allowed_by_id deps.platform db build_seq requester (level.2.map (·.node)) hop.node).map fun row => (hop.node, row)

theorem bfs_tier_nil (visited : List Uuid) :
    bfs_tier deps db build_seq requester trust_floor include_inferred [] visited = ([], visited) := by
  rw [bfs_tier, if_pos List.isEmpty_nil]

/-- A tier is its first level, then the tier from there. -/
theorem bfs_tier_eq {frontier : List Uuid} (hne : frontier ≠ []) (visited : List Uuid) :
    bfs_tier deps db build_seq requester trust_floor include_inferred frontier visited =
      ((level_rows deps db build_seq requester trust_floor include_inferred frontier visited).map (·.2) ++
          (bfs_tier deps db build_seq requester trust_floor include_inferred
            ((level_rows deps db build_seq requester trust_floor include_inferred frontier visited).map (·.1))
            (admitted_hops db build_seq none trust_floor include_inferred frontier visited).1).1,
        (bfs_tier deps db build_seq requester trust_floor include_inferred
          ((level_rows deps db build_seq requester trust_floor include_inferred frontier visited).map (·.1))
          (admitted_hops db build_seq none trust_floor include_inferred frontier visited).1).2) := by
  have hsome : ¬ frontier.isEmpty = true := by simpa using hne
  rw [bfs_tier, if_neg hsome]
  by_cases hlevel : (admitted_hops db build_seq none trust_floor include_inferred frontier visited).2 = []
  · have hrows : level_rows deps db build_seq requester trust_floor include_inferred frontier visited = [] := by
      rw [level_rows, hlevel, List.filterMap_nil]
    rw [hrows, List.map_nil, List.map_nil, bfs_tier_nil, dif_pos hlevel, List.append_nil]
  · rw [dif_neg hlevel]
    rfl

/-- A level gives rows for shown nodes only, each met over an admitted edge from the frontier. -/
theorem mem_level_rows {frontier visited : List Uuid} {entry : Uuid × ArtifactRow}
    (h : entry ∈ level_rows deps db build_seq requester trust_floor include_inferred frontier visited) :
    shown deps.platform db build_seq requester entry.1 = true ∧ entry.2.artifact_id = entry.1 ∧
      ∃ e ∈ member_edges db build_seq, admits e.trust_class trust_floor include_inferred = true ∧
        ((e.from_artifact_id ∈ frontier ∧ entry.1 = e.to_artifact_id) ∨
          (e.to_artifact_id ∈ frontier ∧ entry.1 = e.from_artifact_id)) := by
  obtain ⟨hop, hhop, hrow⟩ := List.mem_filterMap.1 h
  rw [allowed_by_id_eq (List.mem_map_of_mem hhop)] at hrow
  obtain ⟨row, hvisible, rfl⟩ := Option.map_eq_some_iff.1 hrow
  obtain ⟨hedge, -, -, hends⟩ := (hops_of_scan _ _ _ _ _).2 hop hhop
  obtain ⟨hfetched, hadmits⟩ := List.mem_filter.1 hedge
  exact ⟨shown_iff.2 ⟨row, hvisible⟩, (artifact_id_of_visible_row hvisible).2, hop.edge,
    (mem_fetch_edges_touching.1 hfetched).1, hadmits, hends⟩

theorem Agree.level_rows (h : Agree deps.platform requester db db' build_seq) {frontier visited visited' : List Uuid}
    (hview : SameView (ContextBroker.shown deps.platform db build_seq requester)
      (ContextBroker.admitted_hops db build_seq none trust_floor include_inferred frontier visited)
      (ContextBroker.admitted_hops db' build_seq none trust_floor include_inferred frontier visited')) :
    level_rows deps db build_seq requester trust_floor include_inferred frontier visited =
      level_rows deps db' build_seq requester trust_floor include_inferred frontier visited' := by
  unfold ContextBroker.level_rows
  dsimp only
  rw [filterMap_allowed_by_id _ fun hop row => (hop.node, row), filterMap_allowed_by_id _ fun hop row => (hop.node, row),
    hview.hops, h.shown, h.visible_row]

/-- A tier finds the same rows in both, whatever hidden nodes it has met. -/
theorem Agree.bfs_tier (h : Agree deps.platform requester db db' build_seq) (trust_floor : TrustFloor)
    (include_inferred : Bool) {frontier visited visited' : List Uuid}
    (hfrontier : ∀ v ∈ frontier, ContextBroker.shown deps.platform db build_seq requester v = true)
    (hvisited : ∀ v, ContextBroker.shown deps.platform db build_seq requester v = true → (v ∈ visited ↔ v ∈ visited')) :
    (bfs_tier deps db build_seq requester trust_floor include_inferred frontier visited).1 =
        (bfs_tier deps db' build_seq requester trust_floor include_inferred frontier visited').1 ∧
      ∀ v, ContextBroker.shown deps.platform db build_seq requester v = true →
        (v ∈ (bfs_tier deps db build_seq requester trust_floor include_inferred frontier visited).2 ↔
          v ∈ (bfs_tier deps db' build_seq requester trust_floor include_inferred frontier visited').2) := by
  -- on what the first walk has left; the second may have a level more or less to go before it sees that it is done
  induction hleft : unvisited (edge_ends db build_seq) visited using Nat.strong_induction_on
    generalizing frontier visited visited' with
  | h left ih =>
    by_cases hne : frontier = []
    · subst hne
      rw [bfs_tier_nil, bfs_tier_nil]
      exact ⟨rfl, hvisited⟩
    have hview := h.admitted_hops none trust_floor include_inferred hfrontier hvisited
    rw [bfs_tier_eq hne, bfs_tier_eq hne, ← h.level_rows hview]
    by_cases hrows : ContextBroker.level_rows deps db build_seq requester trust_floor include_inferred frontier visited = []
    · rw [hrows, List.map_nil, List.map_nil, bfs_tier_nil, bfs_tier_nil]
      exact ⟨rfl, hview.visited⟩
    · have hsome : (ContextBroker.admitted_hops db build_seq none trust_floor include_inferred frontier visited).2 ≠ [] := by
        intro hnone
        rw [ContextBroker.level_rows, hnone, List.filterMap_nil] at hrows
        exact hrows rfl
      have hnext : ∀ v ∈ (ContextBroker.level_rows deps db build_seq requester trust_floor include_inferred frontier
          visited).map (·.1), ContextBroker.shown deps.platform db build_seq requester v = true := by
        intro v hv
        obtain ⟨entry, hentry, rfl⟩ := List.mem_map.1 hv
        exact (mem_level_rows hentry).1
      obtain ⟨hrest, hseen⟩ := ih _ (hleft ▸ unvisited_admitted_hops hsome) hnext hview.visited rfl
      rw [hrest]
      exact ⟨rfl, hseen⟩

/-- What the frontier has and admitted edges pass on to the nodes shown at their other end, every row has. -/
theorem bfs_tier_rule {P : Uuid → Prop}
    (hstep : ∀ e ∈ member_edges db build_seq, admits e.trust_class trust_floor include_inferred = true →
      ∀ u v, P u → shown deps.platform db build_seq requester v = true →
        (u = e.from_artifact_id ∧ v = e.to_artifact_id) ∨ (u = e.to_artifact_id ∧ v = e.from_artifact_id) → P v)
    {frontier visited : List Uuid} (hfrontier : ∀ v ∈ frontier, P v) :
    ∀ row ∈ (bfs_tier deps db build_seq requester trust_floor include_inferred frontier visited).1,
      P row.artifact_id := by
  induction hleft : unvisited (edge_ends db build_seq) visited using Nat.strong_induction_on
    generalizing frontier visited with
  | h left ih =>
    by_cases hne : frontier = []
    · subst hne
      simp [bfs_tier_nil]
    have hrow : ∀ entry ∈ level_rows deps db build_seq requester trust_floor include_inferred frontier visited,
        P entry.1 := by
      intro entry hentry
      obtain ⟨hshown, -, e, he, hadmits, hends⟩ := mem_level_rows hentry
      cases hends with
      | inl hout => exact hstep e he hadmits _ _ (hfrontier _ hout.1) hshown (.inl ⟨rfl, hout.2⟩)
      | inr hin => exact hstep e he hadmits _ _ (hfrontier _ hin.1) hshown (.inr ⟨rfl, hin.2⟩)
    intro row hmem
    rw [bfs_tier_eq hne] at hmem
    cases List.mem_append.1 hmem with
    | inl hlevel =>
      obtain ⟨entry, hentry, rfl⟩ := List.mem_map.1 hlevel
      rw [(mem_level_rows hentry).2.1]
      exact hrow entry hentry
    | inr hrest =>
      have hsome : (admitted_hops db build_seq none trust_floor include_inferred frontier visited).2 ≠ [] := by
        intro hnone
        have hrows : level_rows deps db build_seq requester trust_floor include_inferred frontier visited = [] := by
          rw [level_rows, hnone, List.filterMap_nil]
        rw [hrows, List.map_nil, bfs_tier_nil] at hrest
        simp at hrest
      refine ih _ (hleft ▸ unvisited_admitted_hops hsome) (fun v hv => ?_) rfl row hrest
      obtain ⟨entry, hentry, rfl⟩ := List.mem_map.1 hv
      exact hrow entry hentry

theorem shown_of_mem_bfs_tier {frontier visited : List Uuid}
    (hfrontier : ∀ v ∈ frontier, shown deps.platform db build_seq requester v = true) :
    ∀ row ∈ (bfs_tier deps db build_seq requester trust_floor include_inferred frontier visited).1,
      shown deps.platform db build_seq requester row.artifact_id = true :=
  bfs_tier_rule (fun _ _ _ _ _ _ hshown _ => hshown) hfrontier

end Tiers

section Expansion

variable {deps : BrokerDeps} {db db' : Database} {build_seq : Nat} {requester : Requester} {request : ExpandRequest}

/-- The seeds a walk starts from. -/
def allowed_seeds (deps : BrokerDeps) (db : Database) (build_seq : Nat) (requester : Requester)
    (request : ExpandRequest) : List ArtifactRow :=
  filter_artifacts requester (fetch_artifacts deps.platform db request.seed_artifact_ids build_seq)

theorem mem_allowed_seeds {row : ArtifactRow} (h : row ∈ allowed_seeds deps db build_seq requester request) :
    row.artifact_id ∈ request.seed_artifact_ids ∧ shown deps.platform db build_seq requester row.artifact_id = true := by
  obtain ⟨hrow, hadmits⟩ := mem_filter_artifacts.1 h
  obtain ⟨hmember, hseed⟩ := mem_fetch_artifacts.1 hrow
  exact ⟨hseed, List.any_eq_true.2 ⟨row, mem_filter_artifacts.2 ⟨hmember, hadmits⟩, by simp⟩⟩

/-- `list(seed_by_id)`. -/
def seed_ids (seed_rows : List ArtifactRow) : List Uuid :=
  (seed_rows.foldl (fun (d : Dict Uuid ArtifactRow) row => d.set row.artifact_id row) []).map (·.1)

theorem row_of_mem_seed_ids {seed_rows : List ArtifactRow} {id : Uuid} (h : id ∈ seed_ids seed_rows) :
    ∃ row ∈ seed_rows, row.artifact_id = id := by
  obtain ⟨entry, hentry, rfl⟩ := List.mem_map.1 h
  cases Dict.mem_foldl_set (fun row : ArtifactRow => row.artifact_id) (fun row => row) hentry with
  | inl hold => simp at hold
  | inr hnew =>
    obtain ⟨row, hrow, rfl⟩ := hnew
    exact ⟨row, hrow, rfl⟩

theorem shown_of_mem_seed_ids {id : Uuid}
    (h : id ∈ seed_ids (allowed_seeds deps db build_seq requester request)) :
    shown deps.platform db build_seq requester id = true := by
  obtain ⟨row, hrow, rfl⟩ := row_of_mem_seed_ids h
  exact (mem_allowed_seeds hrow).2

theorem Agree.expand_rows (h : Agree deps.platform requester db db' build_seq) (request : ExpandRequest) :
    expand_rows deps db build_seq requester request = expand_rows deps db' build_seq requester request := by
  have hvisible : ∀ db : Database, allowed_seeds deps db build_seq requester request =
      (visible_rows deps.platform db build_seq requester).filter fun row =>
        request.seed_artifact_ids.contains row.artifact_id := by
    intro db
    rw [allowed_seeds, filter_artifacts, fetch_artifacts, visible_rows, filter_artifacts, List.filter_comm]
  have hseeds : allowed_seeds deps db build_seq requester request =
      allowed_seeds deps db' build_seq requester request := by
    rw [hvisible, hvisible, h.rows]
  have hshown : ∀ id ∈ seed_ids (allowed_seeds deps db build_seq requester request),
      ContextBroker.shown deps.platform db build_seq requester id = true :=
    fun _ hid => shown_of_mem_seed_ids hid
  have hunfold : ∀ db : Database, ContextBroker.expand_rows deps db build_seq requester request =
      let seed_rows := allowed_seeds deps db build_seq requester request
      let extracted := ContextBroker.bfs_tier deps db build_seq requester request.trust_floor false (seed_ids seed_rows)
        request.seed_artifact_ids
      seed_rows ++ extracted.1 ++
        if request.include_inferred then
          (ContextBroker.bfs_tier deps db build_seq requester request.trust_floor true
            (seed_ids seed_rows ++ extracted.1.map (·.artifact_id)) extracted.2).1
        else [] := fun _ => rfl
  rw [hunfold, hunfold, ← hseeds]
  generalize allowed_seeds deps db build_seq requester request = seed_rows at hshown
  obtain ⟨hextracted, hseen⟩ := h.bfs_tier request.trust_floor false hshown
    fun v _ => (Iff.rfl : v ∈ request.seed_artifact_ids ↔ v ∈ request.seed_artifact_ids)
  dsimp only
  rw [← hextracted]
  cases request.include_inferred with
  | false => rfl
  | true =>
    have hfrontier : ∀ v ∈ seed_ids seed_rows ++ (ContextBroker.bfs_tier deps db build_seq requester
        request.trust_floor false (seed_ids seed_rows) request.seed_artifact_ids).1.map (·.artifact_id),
        ContextBroker.shown deps.platform db build_seq requester v = true := by
      intro v hv
      cases List.mem_append.1 hv with
      | inl hseed => exact hshown v hseed
      | inr hrow =>
        obtain ⟨row, hmem, rfl⟩ := List.mem_map.1 hrow
        exact shown_of_mem_bfs_tier hshown row hmem
    obtain ⟨hinferred, -⟩ := h.bfs_tier request.trust_floor true hfrontier hseen
    rw [if_pos rfl, if_pos rfl, hinferred]

end Expansion

section Paths

variable (deps : BrokerDeps) (db : Database) (build_seq : Nat) (requester : Requester)

/-- A walk of so many edges from a root, over walkable member edges and through artifacts the requester
may see. -/
inductive VisiblePath (walkable : EdgeRow → Bool) (roots : List Uuid) : Nat → Uuid → Prop where
  | root {v : Uuid} (hroot : v ∈ roots) (hshown : shown deps.platform db build_seq requester v = true) :
    VisiblePath walkable roots 0 v
  | step {length : Nat} {u v : Uuid} {e : EdgeRow} (hpath : VisiblePath walkable roots length u)
    (hmember : e ∈ member_edges db build_seq) (hwalkable : walkable e = true)
    (hends : (u = e.from_artifact_id ∧ v = e.to_artifact_id) ∨ (u = e.to_artifact_id ∧ v = e.from_artifact_id))
    (hshown : shown deps.platform db build_seq requester v = true) : VisiblePath walkable roots (length + 1) v

/-- The edges a neighbor request may walk. -/
def GetNeighborsRequest.walkable (request : GetNeighborsRequest) (e : EdgeRow) : Bool :=
  admits e.trust_class request.trust_floor request.include_inferred &&
    (request.edge_types.isEmpty || request.edge_types.contains e.edge_type)

/-- The edges an expansion may walk. -/
def ExpandRequest.walkable (request : ExpandRequest) (e : EdgeRow) : Bool :=
  admits e.trust_class request.trust_floor request.include_inferred

variable {deps db build_seq requester}

/-- What a walk has found lies at the ends of such paths, and unless it is over, so does its frontier. -/
structure WalkFound (deps : BrokerDeps) (db : Database) (build_seq : Nat) (requester : Requester)
    (request : GetNeighborsRequest) (distance : Nat) (walk : Walk) : Prop where
  found : ∀ found ∈ walk.found, VisiblePath deps db build_seq requester request.walkable [request.artifact_id]
    found.distance found.hop.node
  frontier : walk.found.length < deps.settings.max_graph_neighbors → ∀ v ∈ walk.frontier,
    VisiblePath deps db build_seq requester request.walkable [request.artifact_id] distance v

theorem walkFound_start_walk {request : GetNeighborsRequest} :
    WalkFound deps db build_seq requester request 0 (start_walk deps db build_seq requester request) := by
  refine ⟨by simp [start_walk], fun _ v hv => ?_⟩
  simp only [start_walk] at hv
  split at hv
  · simp at hv
  · rename_i hsome
    rw [List.isEmpty_iff] at hsome
    obtain ⟨row, hrow⟩ := List.exists_mem_of_ne_nil _ hsome
    obtain ⟨hfetched, hadmits⟩ := mem_filter_artifacts.1 hrow
    obtain ⟨hmember, hid⟩ := mem_fetch_artifacts.1 hfetched
    rw [List.mem_singleton] at hid hv
    refine .root (List.mem_singleton.2 hv) (List.any_eq_true.2 ⟨row, mem_filter_artifacts.2 ⟨hmember, hadmits⟩, ?_⟩)
    simp [hid, hv]

theorem WalkFound.walk_hop {request : GetNeighborsRequest} {distance : Nat} {walk : Walk}
    (h : WalkFound deps db build_seq requester request distance walk) :
    WalkFound deps db build_seq requester request (distance + 1)
      (walk_hop deps db build_seq requester request walk (distance + 1)) := by
  unfold ContextBroker.walk_hop
  by_cases hstop : (walk.frontier.isEmpty || decide (deps.settings.max_graph_neighbors ≤ walk.found.length)) = true
  · rw [if_pos hstop]
    refine ⟨h.found, fun hroom v hv => ?_⟩
    rw [Bool.or_eq_true, List.isEmpty_iff, decide_eq_true_eq] at hstop
    cases hstop with
    | inl hempty => simp [hempty] at hv
    | inr hfull => omega
  · rw [if_neg hstop]
    rw [Bool.or_eq_true, List.isEmpty_iff, decide_eq_true_eq, not_or, not_le] at hstop
    have hnew : ∀ found ∈ ((admitted_hops db build_seq
          (if request.edge_types.isEmpty then none else some request.edge_types) request.trust_floor
          request.include_inferred walk.frontier walk.visited).2.filterMap fun hop =>
        (allowed_by_id deps.platform db build_seq requester ((admitted_hops db build_seq
          (if request.edge_types.isEmpty then none else some request.edge_types) request.trust_floor
          request.include_inferred walk.frontier walk.visited).2.map (·.node)) hop.node).map
            fun row => { hop, distance := distance + 1, row : Found }),
        found.distance = distance + 1 ∧ VisiblePath deps db build_seq requester request.walkable
          [request.artifact_id] (distance + 1) found.hop.node := by
      intro found hfound
      obtain ⟨hop, hhop, hrow⟩ := List.mem_filterMap.1 hfound
      rw [allowed_by_id_eq (List.mem_map_of_mem hhop)] at hrow
      obtain ⟨row, hvisible, rfl⟩ := Option.map_eq_some_iff.1 hrow
      obtain ⟨hedge, -, -, hends⟩ := (hops_of_scan _ _ _ _ _).2 hop hhop
      obtain ⟨hfetched, hadmits⟩ := List.mem_filter.1 hedge
      obtain ⟨hmember, -, htypes⟩ := mem_fetch_edges_touching.1 hfetched
      have hwalkable : request.walkable hop.edge = true := by
        rw [GetNeighborsRequest.walkable, hadmits, Bool.true_and, Bool.or_eq_true, List.contains_iff_mem]
        by_cases hall : request.edge_types.isEmpty = true
        · exact .inl hall
        · exact .inr (htypes _ (by simp [hall]))
      have hshown := shown_iff.2 ⟨row, hvisible⟩
      cases hends with
      | inl hout =>
        exact ⟨rfl, .step (h.frontier hstop.2 _ hout.1) hmember hwalkable (.inl ⟨rfl, hout.2⟩) hshown⟩
      | inr hin =>
        exact ⟨rfl, .step (h.frontier hstop.2 _ hin.1) hmember hwalkable (.inr ⟨rfl, hin.2⟩) hshown⟩
    constructor
    · intro found hfound
      cases List.mem_append.1 hfound with
      | inl hold => exact h.found found hold
      | inr htaken =>
        obtain ⟨hdistance, hpath⟩ := hnew found (List.mem_of_mem_take htaken)
        exact hdistance ▸ hpath
    · intro _ v hv
      obtain ⟨found, htaken, rfl⟩ := List.mem_map.1 hv
      exact (hnew found (List.mem_of_mem_take htaken)).2

theorem walkFound_walk_graph {request : GetNeighborsRequest} :
    WalkFound deps db build_seq requester request request.depth (walk_graph deps db build_seq requester request) := by
  unfold walk_graph
  induction request.depth with
  | zero => exact walkFound_start_walk
  | succ depth ih =>
    rw [List.range'_1_concat, List.foldl_append, List.foldl_cons, List.foldl_nil, Nat.add_comm 1 depth]
    exact ih.walk_hop

theorem path_of_mem_expand_rows {request : ExpandRequest} :
    ∀ row ∈ expand_rows deps db build_seq requester request, ∃ length,
      VisiblePath deps db build_seq requester request.walkable request.seed_artifact_ids length row.artifact_id := by
  have hseed : ∀ row ∈ allowed_seeds deps db build_seq requester request, ∃ length,
      VisiblePath deps db build_seq requester request.walkable request.seed_artifact_ids length row.artifact_id := by
    intro row hrow
    obtain ⟨hmem, hshown⟩ := mem_allowed_seeds hrow
    exact ⟨0, .root hmem hshown⟩
  have hseeds : ∀ id ∈ seed_ids (allowed_seeds deps db build_seq requester request), ∃ length,
      VisiblePath deps db build_seq requester request.walkable request.seed_artifact_ids length id := by
    intro id hid
    obtain ⟨row, hrow, rfl⟩ := row_of_mem_seed_ids hid
    exact hseed row hrow
  -- both tiers walk edges the request may walk
  have htier : ∀ include_inferred : Bool, (include_inferred = true → request.include_inferred = true) →
      ∀ frontier visited : List Uuid, (∀ v ∈ frontier, ∃ length,
        VisiblePath deps db build_seq requester request.walkable request.seed_artifact_ids length v) →
      ∀ row ∈ (bfs_tier deps db build_seq requester request.trust_floor include_inferred frontier visited).1,
        ∃ length, VisiblePath deps db build_seq requester request.walkable request.seed_artifact_ids length
          row.artifact_id := by
    intro include_inferred hasked frontier visited hfrontier
    refine bfs_tier_rule (fun e hmember hadmits u v hpath hshown hends => ?_) hfrontier
    obtain ⟨length, hpath⟩ := hpath
    refine ⟨length + 1, .step hpath hmember ?_ hends hshown⟩
    unfold ExpandRequest.walkable
    cases include_inferred with
    | true => rw [hasked rfl, hadmits]
    | false =>
      cases request.include_inferred with
      | false => exact hadmits
      | true => exact admits_include_inferred hadmits
  have hextracted := htier false (by simp) _ request.seed_artifact_ids hseeds
  intro row hrow
  rw [expand_rows, List.mem_append, List.mem_append] at hrow
  rcases hrow with (hseedrow | hbackbone) | hinferred
  · exact hseed row hseedrow
  · exact hextracted row hbackbone
  · split at hinferred
    · rename_i hasked
      refine htier true (fun _ => hasked) _ _ (fun v hv => ?_) row hinferred
      cases List.mem_append.1 hv with
      | inl hroot => exact hseeds v hroot
      | inr hreached =>
        obtain ⟨reached, hmem, rfl⟩ := List.mem_map.1 hreached
        exact hextracted reached hmem
    · simp at hinferred

/-- Every card taken is that of a row. -/
theorem mem_take_cards {budget : Nat} {rows : List ArtifactRow} {cards : List EvidenceCard} {tokens_used : Nat}
    {card : EvidenceCard} (h : card ∈ (take_cards deps budget rows cards tokens_used).1) :
    card ∈ cards ∨ ∃ row ∈ rows, card = build_card deps row none := by
  induction rows generalizing cards tokens_used with
  | nil => exact .inl h
  | cons row rows ih =>
    unfold take_cards at h
    split at h
    · exact .inl h
    · dsimp only at h
      split at h
      · exact .inl h
      · cases ih h with
        | inl hcards =>
          cases List.mem_append.1 hcards with
          | inl hold => exact .inl hold
          | inr hnew => exact .inr ⟨row, List.mem_cons_self, List.mem_singleton.1 hnew⟩
        | inr hrow =>
          obtain ⟨other, hmem, heq⟩ := hrow
          exact .inr ⟨other, List.mem_cons_of_mem _ hmem, heq⟩

end Paths

/-- The graph tools answer a requester alike over databases it cannot tell apart, and whatever they answer lies at
the end of a walk through artifacts it may see and over edges its request admits. -/
theorem graph_reads_noninterfering (deps : BrokerDeps) {requester : Requester} {db db' : Database}
    (h : SameVisible deps.platform requester db db') :
    (∀ request, get_neighbors deps db requester request = get_neighbors deps db' requester request) ∧
      (∀ packs request, expand deps db packs requester request = expand deps db' packs requester request) ∧
      ∀ active ∈ fetch_active_version db,
        (∀ request response, get_neighbors deps db requester request = .ok response →
          ∀ neighbor ∈ response.neighbors, VisiblePath deps db active.build_seq requester request.walkable
            [request.artifact_id] neighbor.distance neighbor.artifact_id) ∧
        ∀ packs request response, expand deps db packs requester request = .ok response →
          ∀ card ∈ response.cards, ∃ length, VisiblePath deps db active.build_seq requester request.walkable
            request.seed_artifact_ids length card.artifact_id := by
  have hagree : ∀ active ∈ fetch_active_version db, Agree deps.platform requester db db' active.build_seq :=
    fun active hactive => ⟨h.rows active hactive, h.edges active hactive⟩
  refine ⟨fun request => ?_, fun packs request => ?_, fun active hactive => ⟨?_, ?_⟩⟩
  · unfold get_neighbors
    rw [← h.active]
    cases hactive : fetch_active_version db with
    | none => rfl
    | some active =>
      have hwalk := (hagree active hactive).walk_graph request
      dsimp only
      rw [hwalk.found]
  · unfold expand
    rw [← h.active]
    cases hactive : fetch_active_version db with
    | none => rfl
    | some active =>
      have hrows := (hagree active hactive).expand_rows request
      have hcards : ∀ budget held, expand_cards deps db active.build_seq requester request budget held =
          expand_cards deps db' active.build_seq requester request budget held := by
        intro budget held
        rw [expand_cards, hrows, expand_cards]
      simp only [hcards]
  · intro request response hresponse neighbor hneighbor
    rw [get_neighbors, Option.mem_def.1 hactive] at hresponse
    obtain rfl := Except.ok.inj hresponse
    obtain ⟨found, hfound, rfl⟩ := List.mem_map.1 hneighbor
    exact walkFound_walk_graph.found found hfound
  · intro packs request response hresponse card hcard
    have hcards : ∃ budget held, response = expand_cards deps db active.build_seq requester request budget held := by
      rw [expand, Option.mem_def.1 hactive] at hresponse
      dsimp only at hresponse
      split at hresponse
      · exact ⟨_, _, (Except.ok.inj hresponse).symm⟩
      · split at hresponse
        · simp at hresponse
        · exact ⟨_, _, (Except.ok.inj hresponse).symm⟩
    obtain ⟨budget, held, rfl⟩ := hcards
    cases mem_take_cards hcard with
    | inl hold => simp at hold
    | inr hnew =>
      obtain ⟨row, hrow, rfl⟩ := hnew
      exact path_of_mem_expand_rows row (List.mem_filter.1 hrow).1

section Hub

/-- A file of a public repo, if it has no access list. -/
def repo_file (id : Uuid) (acl_teams : List String) : KnowledgeArtifact :=
  { valid_from_seq := 1, artifact_id := id, artifact_type := .code_file, source_id := id, title := some "file"
    body_text := none, content_hash := none, kb_version := "v1", knowledge_kind := some .source_backed, acl_teams
    created_at := 0 }

def repo_source (id : Uuid) (acl_teams : List String) : SourceItem :=
  { source_id := id, source_type := .github_code, source_uri := "github://acme/app/file", source_version := "1"
    repo := some "acme/app", branch := some "main", path := some "file", external_id := none, content_hash := ""
    last_seen_at := none, acl_teams, is_deleted := false, created_at := 0 }

def repo_import (id from_artifact_id to_artifact_id : Uuid) : KnowledgeEdge :=
  { valid_from_seq := 1, edge_id := id, from_artifact_id, to_artifact_id, edge_type := .imports
    confidence := some 1, source := some .graphify, kb_version := "v1", trust_class := .EXTRACTED }

/-- A chain of two public files; `hidden` files are for the platform team alone and import every other file. -/
def repo_database (hidden : List Uuid) : Database :=
  { source_items := [repo_source 1 [], repo_source 2 []] ++ hidden.map fun id => repo_source id ["platform"]
    artifacts := [repo_file 1 [], repo_file 2 []] ++ hidden.map fun id => repo_file id ["platform"]
    edges := repo_import 1 1 2 :: hidden.flatMap fun id => [repo_import (10 + id) id 1, repo_import (20 + id) id 2]
    runs := [{ build_id := 0, kb_version := "v1", build_seq := 1, status := .active, started_at := 0 }] }

def outsider : Requester := { subject := "agent", teams := [] }

/-- A hub of the platform team between two public files goes unnoticed. -/
theorem graph_reads_noninterfering_hub :
    SameVisible Platform.plain outsider (repo_database [0, 3]) (repo_database []) ∧
      get_neighbors .plain (repo_database [0, 3]) outsider { artifact_id := 1, depth := 3 } =
        get_neighbors .plain (repo_database []) outsider { artifact_id := 1, depth := 3 } := by
  have hsame : SameVisible Platform.plain outsider (repo_database [0, 3]) (repo_database []) := by decide +kernel
  exact ⟨hsame, (graph_reads_noninterfering .plain hsame).1 _⟩

end Hub

end AgenticKb.ContextBroker

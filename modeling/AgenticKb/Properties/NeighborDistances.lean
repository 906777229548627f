import AgenticKb.Properties.GraphReads

open AgenticKb.Lib

namespace AgenticKb.ContextBroker

section Steps

variable (p : Platform) (db : Database) (build_seq : Nat) (requester : Requester)

/-- One walkable member edge, either way, to an artifact the requester may see. -/
def VisibleStep (walkable : EdgeRow → Bool) (u v : Uuid) : Prop :=
  shown p db build_seq requester v = true ∧ ∃ e ∈ member_edges db build_seq, walkable e = true ∧
    ((u = e.from_artifact_id ∧ v = e.to_artifact_id) ∨ (u = e.to_artifact_id ∧ v = e.from_artifact_id))

/-- A root the requester may see. -/
def VisibleRoot (roots : List Uuid) (v : Uuid) : Prop := v ∈ roots ∧ shown p db build_seq requester v = true

/-- The length of a shortest walk through what the requester may see. -/
def VisibleDistance (walkable : EdgeRow → Bool) (roots : List Uuid) : Nat → Uuid → Prop :=
  AtDistance (VisibleStep p db build_seq requester walkable) (VisibleRoot p db build_seq requester roots)

variable {p db build_seq requester} {edge_types : Option (List EdgeType)} {trust_floor : TrustFloor}
  {include_inferred : Bool} {frontier visited : List Uuid}

theorem visiblePath_iff {deps : BrokerDeps} {walkable : EdgeRow → Bool} {roots : List Uuid} {length : Nat} {v : Uuid} :
    VisiblePath deps db build_seq requester walkable roots length v ↔
      ReachIn (VisibleStep deps.platform db build_seq requester walkable)
        (VisibleRoot deps.platform db build_seq requester roots) length v := by
  constructor
  · intro h
    induction h with
    | root hroot hshown => exact .root ⟨hroot, hshown⟩
    | step _ hmember hwalkable hends hshown ih => exact .step ih ⟨hshown, _, hmember, hwalkable, hends⟩
  · intro h
    induction h with
    | root hroot => exact .root hroot.1 hroot.2
    | step _ hadj ih =>
      obtain ⟨hshown, e, hmember, hwalkable, hends⟩ := hadj
      exact .step ih hmember hwalkable hends hshown

theorem shown_of_reach {walkable : EdgeRow → Bool} {root : Uuid → Prop}
    (hroot : ∀ v, root v → shown p db build_seq requester v = true) {n : Nat} {v : Uuid}
    (h : ReachIn (VisibleStep p db build_seq requester walkable) root n v) : shown p db build_seq requester v = true := by
  cases h with
  | root hv => exact hroot _ hv
  | step _ hadj => exact hadj.1

theorem shown_of_reachIn {walkable : EdgeRow → Bool} {roots : List Uuid} {n : Nat} {v : Uuid}
    (h : ReachIn (VisibleStep p db build_seq requester walkable) (VisibleRoot p db build_seq requester roots) n v) :
    shown p db build_seq requester v = true :=
  shown_of_reach (fun _ hroot => hroot.2) h

/-- The edges one level reads. -/
def level_walkable (edge_types : Option (List EdgeType)) (trust_floor : TrustFloor) (include_inferred : Bool)
    (e : EdgeRow) : Bool :=
  admits e.trust_class trust_floor include_inferred && edge_types.all fun types => types.contains e.edge_type

theorem mem_level_edges {e : EdgeRow} :
    e ∈ ((fetch_edges_touching db frontier build_seq edge_types).filter fun e =>
        admits e.trust_class trust_floor include_inferred) ↔
      e ∈ member_edges db build_seq ∧ level_walkable edge_types trust_floor include_inferred e = true ∧
        (e.from_artifact_id ∈ frontier ∨ e.to_artifact_id ∈ frontier) := by
  rw [List.mem_filter, mem_fetch_edges_touching, level_walkable, Bool.and_eq_true]
  cases edge_types with
  | none =>
    simp only [Option.mem_def, reduceCtorEq, IsEmpty.forall_iff, implies_true, and_true, Option.all_none]
    tauto
  | some types =>
    simp only [Option.mem_def, Option.some.injEq, forall_eq', Option.all_some, List.contains_iff_mem]
    tauto

variable (db build_seq edge_types trust_floor include_inferred) in
theorem scanned_admitted_hops (hsub : ∀ v ∈ frontier, v ∈ visited) :
    Scanned EdgeRow.from_artifact_id EdgeRow.to_artifact_id frontier visited
      ((fetch_edges_touching db frontier build_seq edge_types).filter fun e =>
        admits e.trust_class trust_floor include_inferred)
      (admitted_hops db build_seq edge_types trust_floor include_inferred frontier visited) :=
  scanned hsub _

/-- Of what the requester may see, a level meets exactly the new nodes one step from the frontier. -/
theorem mem_admitted_hops (hsub : ∀ v ∈ frontier, v ∈ visited) {v : Uuid}
    (hshown : shown p db build_seq requester v = true) :
    v ∈ (admitted_hops db build_seq edge_types trust_floor include_inferred frontier visited).2.map (·.node) ↔
      v ∉ visited ∧ ∃ u ∈ frontier,
        VisibleStep p db build_seq requester (level_walkable edge_types trust_floor include_inferred) u v := by
  have hscan := scanned_admitted_hops db build_seq edge_types trust_floor include_inferred hsub
  constructor
  · intro hmem
    obtain ⟨hop, hhop, rfl⟩ := List.mem_map.1 hmem
    obtain ⟨hedge, u, hu, horiented⟩ := hscan.oriented hop hhop
    obtain ⟨hmember, hwalkable, -⟩ := mem_level_edges.1 hedge
    refine ⟨hscan.fresh hop hhop, u, hu, hshown, hop.edge, hmember, hwalkable, ?_⟩
    unfold Hop.Oriented at horiented
    split at horiented
    · exact .inl horiented
    · exact .inr horiented
  · rintro ⟨hnew, u, hu, -, e, hmember, hwalkable, hends⟩
    have hseen : v ∈ (admitted_hops db build_seq edge_types trust_floor include_inferred frontier visited).1 := by
      cases hends with
      | inl hout =>
        obtain ⟨rfl, rfl⟩ := hout
        exact hscan.source_covered e (mem_level_edges.2 ⟨hmember, hwalkable, .inl hu⟩) hu
      | inr hin =>
        obtain ⟨rfl, rfl⟩ := hin
        exact hscan.target_covered e (mem_level_edges.2 ⟨hmember, hwalkable, .inr hu⟩) hu
    cases (hscan.seen v).1 hseen with
    | inl hold => exact absurd hold hnew
    | inr hhop => exact hhop

variable (p db build_seq requester edge_types trust_floor include_inferred) in
/-- The nodes of one level that the requester may see. -/
def shown_nodes (frontier visited : List Uuid) : List Uuid :=
  ((admitted_hops db build_seq edge_types trust_floor include_inferred frontier visited).2.filter fun hop =>
    shown p db build_seq requester hop.node).map (·.node)

variable (p db build_seq requester edge_types trust_floor include_inferred) in
/-- Once each, they are the new ones one step from the frontier. -/
theorem shown_nodes_exact (hsub : ∀ v ∈ frontier, v ∈ visited) :
    (shown_nodes p db build_seq requester edge_types trust_floor include_inferred frontier visited).Nodup ∧
      ∀ v, v ∈ shown_nodes p db build_seq requester edge_types trust_floor include_inferred frontier visited ↔
        shown p db build_seq requester v = true ∧ v ∉ visited ∧ ∃ u ∈ frontier,
          VisibleStep p db build_seq requester (level_walkable edge_types trust_floor include_inferred) u v := by
  have hscan := scanned_admitted_hops db build_seq edge_types trust_floor include_inferred hsub
  refine ⟨(List.filter_sublist.map _).nodup hscan.nodup, fun v => ?_⟩
  constructor
  · intro hv
    obtain ⟨hop, hhop, rfl⟩ := List.mem_map.1 hv
    obtain ⟨hmem, hshown⟩ := List.mem_filter.1 hhop
    exact ⟨hshown, (mem_admitted_hops hsub hshown).1 (List.mem_map_of_mem hmem)⟩
  · rintro ⟨hshown, hv⟩
    obtain ⟨hop, hmem, rfl⟩ := List.mem_map.1 ((mem_admitted_hops hsub hshown).2 hv)
    exact List.mem_map_of_mem (List.mem_filter.2 ⟨hmem, hshown⟩)

variable (p db build_seq requester edge_types trust_floor include_inferred) in
/-- After a level the requester's part of what was visited has grown by them. -/
theorem mem_visited_admitted_hops (hsub : ∀ v ∈ frontier, v ∈ visited) {v : Uuid}
    (hshown : shown p db build_seq requester v = true) :
    v ∈ (admitted_hops db build_seq edge_types trust_floor include_inferred frontier visited).1 ↔
      v ∈ visited ∨ v ∈ shown_nodes p db build_seq requester edge_types trust_floor include_inferred frontier visited := by
  rw [(scanned_admitted_hops db build_seq edge_types trust_floor include_inferred hsub).seen v,
    mem_admitted_hops hsub hshown, (shown_nodes_exact p db build_seq requester edge_types trust_floor include_inferred
      hsub).2 v]
  simp only [hshown, true_and]

/-- The rows given for the hops of a level stand for the hops to nodes shown. -/
theorem map_filterMap_allowed {α β : Type} (hops : List (Hop Uuid EdgeRow)) {f : Hop Uuid EdgeRow → ArtifactRow → α}
    {g : α → β} {h : Hop Uuid EdgeRow → β} (hg : ∀ hop row, g (f hop row) = h hop) :
    ((hops.filterMap fun hop => (allowed_by_id p db build_seq requester (hops.map (·.node)) hop.node).map (f hop)).map g) =
      (hops.filter fun hop => shown p db build_seq requester hop.node).map h := by
  rw [filterMap_allowed_by_id hops f, List.map_filterMap]
  induction hops with
  | nil => rfl
  | cons hop hops ih =>
    cases hshown : shown p db build_seq requester hop.node with
    | true =>
      obtain ⟨row, hrow⟩ := shown_iff.1 hshown
      rw [List.filter_cons, if_pos hshown, List.filterMap_cons_some (by rw [hrow]; rfl), ih, hg, List.map_cons]
    | false =>
      rw [List.filter_cons, if_neg (by simp [hshown]), ih]

end Steps

section Walk

variable {deps : BrokerDeps} {db : Database} {build_seq : Nat} {requester : Requester} {request : GetNeighborsRequest}

/-- The edge types a request asks for; none stands for all. -/
def GetNeighborsRequest.asked_types (request : GetNeighborsRequest) : Option (List EdgeType) :=
  if request.edge_types.isEmpty then none else some request.edge_types

theorem level_walkable_asked :
    level_walkable request.asked_types request.trust_floor request.include_inferred = request.walkable := by
  funext e
  unfold level_walkable GetNeighborsRequest.asked_types GetNeighborsRequest.walkable
  by_cases hall : request.edge_types.isEmpty = true
  · rw [if_pos hall, hall, Option.all_none, Bool.true_or]
  · rw [if_neg hall, Option.all_some, Bool.eq_false_iff.2 hall, Bool.false_or]

variable (deps db build_seq requester request) in
/-- What a level finds before the cap. -/
def level_found (walk : Walk) (distance : Nat) : List Found :=
  let hops := (admitted_hops db build_seq request.asked_types request.trust_floor request.include_inferred
    walk.frontier walk.visited).2
  hops.filterMap fun hop => (allowed_by_id deps.platform db build_seq requester (hops.map (·.node)) hop.node).map fun row =>
    { hop, distance, row : Found }

theorem walk_hop_eq (walk : Walk) (distance : Nat) (hfrontier : walk.frontier ≠ [])
    (hroom : walk.found.length < deps.settings.max_graph_neighbors) :
    walk_hop deps db build_seq requester request walk distance =
      { frontier := ((level_found deps db build_seq requester request walk distance).take
          (deps.settings.max_graph_neighbors - walk.found.length)).map (·.hop.node)
        visited := (admitted_hops db build_seq request.asked_types request.trust_floor request.include_inferred
          walk.frontier walk.visited).1
        found := walk.found ++ (level_found deps db build_seq requester request walk distance).take
          (deps.settings.max_graph_neighbors - walk.found.length) } := by
  have hgo : ¬ (walk.frontier.isEmpty || decide (deps.settings.max_graph_neighbors ≤ walk.found.length)) = true := by
    simp [hfrontier, hroom]
  unfold walk_hop
  rw [if_neg hgo]
  rfl

/-- The nodes a level finds are those of its hops that the requester may see. -/
theorem level_found_nodes (walk : Walk) (distance : Nat) :
    (level_found deps db build_seq requester request walk distance).map (·.hop.node) =
      shown_nodes deps.platform db build_seq requester request.asked_types request.trust_floor request.include_inferred
        walk.frontier walk.visited :=
  map_filterMap_allowed _ fun _ _ => rfl

/-- What one neighbor found says of itself: how it was reached, and how far it is. -/
structure FoundExact (deps : BrokerDeps) (db : Database) (build_seq : Nat) (requester : Requester)
    (request : GetNeighborsRequest) (found : Found) : Prop where
  row : visible_row deps.platform db build_seq requester found.hop.node = some found.row
  distance : VisibleDistance deps.platform db build_seq requester request.walkable [request.artifact_id] found.distance
    found.hop.node
  member : found.hop.edge ∈ member_edges db build_seq
  walkable : request.walkable found.hop.edge = true
  nearer : ∃ nearer u, found.distance = nearer + 1 ∧ found.hop.Oriented EdgeRow.from_artifact_id EdgeRow.to_artifact_id u ∧
    VisibleDistance deps.platform db build_seq requester request.walkable [request.artifact_id] nearer u

/-- What a walk has done after so many levels. Short of the cap it has found everything that near; at the cap, nothing
that it left out is nearer than anything it found. -/
structure WalkExact (deps : BrokerDeps) (db : Database) (build_seq : Nat) (requester : Requester)
    (request : GetNeighborsRequest) (distance : Nat) (walk : Walk) : Prop where
  nodup : (walk.found.map (·.hop.node)).Nodup
  capped : walk.found.length ≤ deps.settings.max_graph_neighbors
  exact : ∀ found ∈ walk.found, found.distance ≤ distance ∧ FoundExact deps db build_seq requester request found
  frontier : ∀ v ∈ walk.frontier, v ∈ walk.visited
  leveled : walk.found.length < deps.settings.max_graph_neighbors →
    Leveled (VisibleStep deps.platform db build_seq requester request.walkable)
      (VisibleRoot deps.platform db build_seq requester [request.artifact_id]) distance
      (fun v => VisibleRoot deps.platform db build_seq requester [request.artifact_id] v ∨
        v ∈ walk.found.map (·.hop.node)) (· ∈ walk.frontier)
  seen : ∀ v, shown deps.platform db build_seq requester v = true →
    walk.found.length < deps.settings.max_graph_neighbors →
      (v ∈ walk.visited ↔ v = request.artifact_id ∨ v ∈ walk.found.map (·.hop.node))
  full : walk.found.length = deps.settings.max_graph_neighbors →
    ∃ last, (∀ found ∈ walk.found, found.distance ≤ last) ∧ ∀ nearer < last, ∀ v,
      ReachIn (VisibleStep deps.platform db build_seq requester request.walkable)
        (VisibleRoot deps.platform db build_seq requester [request.artifact_id]) nearer v →
          v = request.artifact_id ∨ v ∈ walk.found.map (·.hop.node)

theorem walkExact_start_walk :
    WalkExact deps db build_seq requester request 0 (start_walk deps db build_seq requester request) := by
  have hroot : ∀ v, v ∈ (start_walk deps db build_seq requester request).frontier ↔
      VisibleRoot deps.platform db build_seq requester [request.artifact_id] v := by
    intro v
    have hrows : filter_artifacts requester (fetch_artifacts deps.platform db [request.artifact_id] build_seq) = [] ↔
        ¬ shown deps.platform db build_seq requester request.artifact_id = true := by
      rw [shown, List.any_eq_true, List.eq_nil_iff_forall_not_mem]
      simp only [mem_filter_artifacts, mem_fetch_artifacts, List.mem_singleton, visible_rows, beq_iff_eq]
      constructor
      · rintro h ⟨row, hrow, hid⟩
        exact h row ⟨⟨hrow.1, hid⟩, hrow.2⟩
      · rintro h row ⟨⟨hmember, hid⟩, hadmits⟩
        exact h ⟨row, ⟨hmember, hadmits⟩, hid⟩
    simp only [start_walk, List.isEmpty_iff, hrows, VisibleRoot]
    by_cases hshown : shown deps.platform db build_seq requester request.artifact_id = true
    · rw [if_neg (not_not.2 hshown), List.mem_singleton]
      exact ⟨fun h => ⟨h, h ▸ hshown⟩, fun h => h.1⟩
    · rw [if_pos hshown, List.mem_singleton]
      exact ⟨fun h => absurd h List.not_mem_nil, fun h => absurd (h.1 ▸ h.2) hshown⟩
  constructor
  case nodup => exact List.nodup_nil
  case capped => exact Nat.zero_le _
  case exact => simp [start_walk]
  case frontier =>
    intro v hv
    exact ((hroot v).1 hv).1
  case leveled =>
    intro _
    exact leveled_roots.congr (by simp [start_walk]) hroot
  case seen => simp [start_walk]
  case full =>
    intro _
    exact ⟨0, by simp [start_walk], by simp⟩

/-- A neighbor found one level further on. -/
theorem WalkExact.level_found {distance : Nat} {walk : Walk}
    (h : WalkExact deps db build_seq requester request distance walk)
    (hroom : walk.found.length < deps.settings.max_graph_neighbors) {found : Found}
    (hfound : found ∈ level_found deps db build_seq requester request walk (distance + 1)) :
    found.distance = distance + 1 ∧ FoundExact deps db build_seq requester request found := by
  have hlevel := h.leveled hroom
  have hnode : found.hop.node ∈
      (ContextBroker.level_found deps db build_seq requester request walk (distance + 1)).map (·.hop.node) :=
    List.mem_map_of_mem hfound
  rw [level_found_nodes, (shown_nodes_exact deps.platform db build_seq requester request.asked_types request.trust_floor
    request.include_inferred h.frontier).2, level_walkable_asked] at hnode
  obtain ⟨hshown, hnew, hnext⟩ := hnode
  obtain ⟨hop, hhop, hrow⟩ := List.mem_filterMap.1 hfound
  rw [allowed_by_id_eq (List.mem_map_of_mem hhop)] at hrow
  obtain ⟨row, hvisible, rfl⟩ := Option.map_eq_some_iff.1 hrow
  have hscan := scanned_admitted_hops db build_seq request.asked_types request.trust_floor request.include_inferred
    h.frontier
  obtain ⟨hedge, u, hu, horiented⟩ := hscan.oriented hop hhop
  obtain ⟨hmember, hwalkable, -⟩ := mem_level_edges.1 hedge
  rw [level_walkable_asked] at hwalkable
  have hunseen : ¬ (VisibleRoot deps.platform db build_seq requester [request.artifact_id] hop.node ∨
      hop.node ∈ walk.found.map (·.hop.node)) := by
    intro hold
    apply hnew
    rw [h.seen hop.node hshown hroom]
    exact hold.imp_left fun hroot => List.mem_singleton.1 hroot.1
  exact ⟨rfl, hvisible, (hlevel.fresh_iff hop.node).1 ⟨hunseen, hnext⟩, hmember, hwalkable, distance, u, rfl, horiented,
    (hlevel.frontier u).1 hu⟩

theorem WalkExact.found_later {distance : Nat} {walk : Walk}
    (h : WalkExact deps db build_seq requester request distance walk) {found : Found} (hfound : found ∈ walk.found) :
    found.distance ≤ distance + 1 ∧ FoundExact deps db build_seq requester request found :=
  ⟨Nat.le_succ_of_le (h.exact found hfound).1, (h.exact found hfound).2⟩

/-- A walk that has filled its cap, or stands nowhere, stays as it is. -/
theorem WalkExact.stay {distance : Nat} {walk : Walk}
    (h : WalkExact deps db build_seq requester request distance walk)
    (hstop : walk.frontier = [] ∨ deps.settings.max_graph_neighbors ≤ walk.found.length) :
    WalkExact deps db build_seq requester request (distance + 1) walk := by
  refine ⟨h.nodup, h.capped, fun found hfound => h.found_later hfound, h.frontier, fun hroom => ?_, h.seen, h.full⟩
  have hempty : walk.frontier = [] := hstop.resolve_right (by omega)
  have hnone : ∀ v, False ↔ ¬ (VisibleRoot deps.platform db build_seq requester [request.artifact_id] v ∨
      v ∈ walk.found.map (·.hop.node)) ∧ ∃ u, u ∈ walk.frontier ∧
        VisibleStep deps.platform db build_seq requester request.walkable u v := by simp [hempty]
  exact ((h.leveled hroom).next hnone).congr (by simp) (by simp [hempty])

/-- The next level of a walk that has room, before the cap is applied to it: what it finds is new, next to the
frontier, and all there is. -/
structure NextLevel (deps : BrokerDeps) (db : Database) (build_seq : Nat) (requester : Requester)
    (request : GetNeighborsRequest) (distance : Nat) (walk : Walk) (new : List Found) (visited : List Uuid) : Prop where
  nodup : (new.map (·.hop.node)).Nodup
  shown : ∀ v ∈ new.map (·.hop.node), shown deps.platform db build_seq requester v = true
  exact : ∀ found ∈ new, found.distance = distance + 1 ∧ FoundExact deps db build_seq requester request found
  fresh : ∀ v, v ∈ new.map (·.hop.node) ↔
    ¬ (VisibleRoot deps.platform db build_seq requester [request.artifact_id] v ∨ v ∈ walk.found.map (·.hop.node)) ∧
      ∃ u, u ∈ walk.frontier ∧ VisibleStep deps.platform db build_seq requester request.walkable u v
  visited : ∀ v, ContextBroker.shown deps.platform db build_seq requester v = true →
    (v ∈ visited ↔ v ∈ walk.visited ∨ v ∈ new.map (·.hop.node))

theorem WalkExact.nextLevel {distance : Nat} {walk : Walk}
    (h : WalkExact deps db build_seq requester request distance walk)
    (hroom : walk.found.length < deps.settings.max_graph_neighbors) :
    NextLevel deps db build_seq requester request distance walk
      (ContextBroker.level_found deps db build_seq requester request walk (distance + 1))
      (admitted_hops db build_seq request.asked_types request.trust_floor request.include_inferred walk.frontier
        walk.visited).1 := by
  obtain ⟨hnodup, hnodes⟩ := shown_nodes_exact deps.platform db build_seq requester request.asked_types
    request.trust_floor request.include_inferred h.frontier
  rw [← level_found_nodes walk (distance + 1)] at hnodup hnodes
  rw [level_walkable_asked] at hnodes
  constructor
  case nodup => exact hnodup
  case shown => exact fun v hv => ((hnodes v).1 hv).1
  case exact => exact fun found hfound => h.level_found hroom hfound
  case fresh =>
    intro v
    rw [hnodes v]
    constructor
    · rintro ⟨hshown, hnew, hnext⟩
      rw [h.seen v hshown hroom] at hnew
      exact ⟨fun hold => hnew (hold.imp_left fun hroot => List.mem_singleton.1 hroot.1), hnext⟩
    · rintro ⟨hnew, u, hu, hstep⟩
      refine ⟨hstep.1, fun hold => hnew ?_, u, hu, hstep⟩
      rw [h.seen v hstep.1 hroom] at hold
      exact hold.imp_left fun heq => ⟨List.mem_singleton.2 heq, hstep.1⟩
  case visited =>
    intro v hshown
    rw [mem_visited_admitted_hops deps.platform db build_seq requester request.asked_types request.trust_floor
      request.include_inferred h.frontier hshown, level_found_nodes]

/-- A walk with room takes of the next level what the cap leaves. -/
theorem WalkExact.go {distance : Nat} {walk : Walk}
    (h : WalkExact deps db build_seq requester request distance walk)
    (hroom : walk.found.length < deps.settings.max_graph_neighbors) {new : List Found} {visited : List Uuid}
    (hnext : NextLevel deps db build_seq requester request distance walk new visited) :
    WalkExact deps db build_seq requester request (distance + 1)
      { found := walk.found ++ new.take (deps.settings.max_graph_neighbors - walk.found.length)
        frontier := (new.take (deps.settings.max_graph_neighbors - walk.found.length)).map (·.hop.node)
        visited := visited } := by
  have hlevel := h.leveled hroom
  have htaken : ∀ v, v ∈ (new.take (deps.settings.max_graph_neighbors - walk.found.length)).map (·.hop.node) →
      v ∈ new.map (·.hop.node) := by
    intro v hv
    obtain ⟨found, hmem, rfl⟩ := List.mem_map.1 hv
    exact List.mem_map_of_mem (List.mem_of_mem_take hmem)
  have hwhole : walk.found.length +
      (new.take (deps.settings.max_graph_neighbors - walk.found.length)).length < deps.settings.max_graph_neighbors →
        new.take (deps.settings.max_graph_neighbors - walk.found.length) = new := by
    intro hlt
    rw [List.length_take] at hlt
    apply List.take_of_length_le
    omega
  constructor
  case nodup =>
    dsimp only
    rw [List.map_append]
    refine List.nodup_append.2 ⟨h.nodup, ((List.take_sublist _ _).map _).nodup hnext.nodup, fun v hv w hw heq => ?_⟩
    exact ((hnext.fresh w).1 (htaken w hw)).1 (.inr (heq ▸ hv))
  case capped =>
    dsimp only
    rw [List.length_append, List.length_take]
    omega
  case exact =>
    intro found hfound
    cases List.mem_append.1 hfound with
    | inl hold => exact h.found_later hold
    | inr htake =>
      obtain ⟨heq, hexact⟩ := hnext.exact found (List.mem_of_mem_take htake)
      exact ⟨heq.le, hexact⟩
  case frontier =>
    intro v hv
    have hmem := htaken v hv
    exact (hnext.visited v (hnext.shown v hmem)).2 (.inr hmem)
  case leveled =>
    intro hlt
    dsimp only at hlt ⊢
    rw [List.length_append] at hlt
    rw [hwhole hlt]
    apply (hlevel.next hnext.fresh).congr
    · intro v
      rw [List.map_append, List.mem_append, or_assoc]
    · exact fun v => Iff.rfl
  case seen =>
    intro v hshown hlt
    dsimp only at hlt ⊢
    rw [List.length_append] at hlt
    rw [hwhole hlt, hnext.visited v hshown, h.seen v hshown hroom, List.map_append, List.mem_append, or_assoc]
  case full =>
    intro _
    refine ⟨distance + 1, fun found hfound => ?_, fun nearer hlt v hreach => ?_⟩
    · cases List.mem_append.1 hfound with
      | inl hold => exact (h.found_later hold).1
      | inr htake => exact (hnext.exact found (List.mem_of_mem_take htake)).1.le
    · dsimp only
      rw [List.map_append, List.mem_append]
      cases (hlevel.visited v).2 ⟨nearer, by omega, hreach⟩ with
      | inl hroot => exact .inl (List.mem_singleton.1 hroot.1)
      | inr hold => exact .inr (.inl hold)

theorem WalkExact.walk_hop {distance : Nat} {walk : Walk}
    (h : WalkExact deps db build_seq requester request distance walk) :
    WalkExact deps db build_seq requester request (distance + 1)
      (walk_hop deps db build_seq requester request walk (distance + 1)) := by
  by_cases hstop : walk.frontier = [] ∨ deps.settings.max_graph_neighbors ≤ walk.found.length
  · unfold ContextBroker.walk_hop
    rw [if_pos (by simpa using hstop)]
    exact h.stay hstop
  · rw [not_or, Nat.not_le] at hstop
    rw [walk_hop_eq walk (distance + 1) hstop.1 hstop.2]
    exact h.go hstop.2 (h.nextLevel hstop.2)

variable (deps db build_seq requester request) in
theorem walkExact_walk_graph :
    WalkExact deps db build_seq requester request request.depth (walk_graph deps db build_seq requester request) := by
  unfold walk_graph
  induction request.depth with
  | zero => exact walkExact_start_walk
  | succ depth ih =>
    rw [List.range'_1_concat, List.foldl_append, List.foldl_cons, List.foldl_nil, Nat.add_comm 1 depth]
    exact ih.walk_hop

end Walk

/-- An exact answer about the neighborhood of an artifact, in the graph of what the requester may see: every node once, at
its shortest distance and over an edge from one step nearer; all of them within the depth as long as the cap leaves room,
and the nearest of them where it does not. -/
structure NeighborsExact (deps : BrokerDeps) (db : Database) (build_seq : Nat) (requester : Requester)
    (request : GetNeighborsRequest) (neighbors : List GraphNeighbor) : Prop where
  once : (neighbors.map (·.artifact_id)).Nodup
  nearest : ∀ neighbor ∈ neighbors, neighbor.artifact_id ≠ request.artifact_id ∧ neighbor.distance ≤ request.depth ∧
    VisibleDistance deps.platform db build_seq requester request.walkable [request.artifact_id] neighbor.distance
      neighbor.artifact_id
  edge : ∀ neighbor ∈ neighbors, ∃ e ∈ member_edges db build_seq, request.walkable e = true ∧
    neighbor.edge_type = e.edge_type ∧ neighbor.trust_class = e.trust_class ∧
    neighbor.confidence = unit_score e.confidence ∧ neighbor.edge_source = (e.source.map EdgeSource.text).getD "unknown" ∧
    ∃ nearer u, neighbor.distance = nearer + 1 ∧
      VisibleDistance deps.platform db build_seq requester request.walkable [request.artifact_id] nearer u ∧
      if neighbor.outward then u = e.from_artifact_id ∧ neighbor.artifact_id = e.to_artifact_id
      else u = e.to_artifact_id ∧ neighbor.artifact_id = e.from_artifact_id
  capped : neighbors.length ≤ deps.settings.max_graph_neighbors
  complete : neighbors.length < deps.settings.max_graph_neighbors → ∀ length ≤ request.depth, ∀ v ≠ request.artifact_id,
    VisiblePath deps db build_seq requester request.walkable [request.artifact_id] length v →
      v ∈ neighbors.map (·.artifact_id)
  nearest_first : neighbors.length = deps.settings.max_graph_neighbors → ∀ length, ∀ v ≠ request.artifact_id,
    VisiblePath deps db build_seq requester request.walkable [request.artifact_id] length v →
      v ∉ neighbors.map (·.artifact_id) → ∀ neighbor ∈ neighbors, neighbor.distance ≤ length

/-- `graph.get_neighbors` answers exactly. -/
theorem get_neighbors_exact (deps : BrokerDeps) (db : Database) (requester : Requester) (request : GetNeighborsRequest)
    {active : ActiveVersion} (hactive : active ∈ fetch_active_version db) :
    ∃ response, get_neighbors deps db requester request = .ok response ∧
      NeighborsExact deps db active.build_seq requester request response.neighbors := by
  unfold get_neighbors
  rw [Option.mem_def.1 hactive]
  refine ⟨_, rfl, ?_⟩
  dsimp only
  have hwalk := walkExact_walk_graph deps db active.build_seq requester request
  generalize walk_graph deps db active.build_seq requester request = walk at hwalk
  have hids : (walk.found.map (graph_neighbor deps)).map (·.artifact_id) = walk.found.map (·.hop.node) := by
    rw [List.map_map]
    rfl
  have hroot : ∀ found ∈ walk.found, found.hop.node ≠ request.artifact_id := by
    intro found hfound heq
    have hexact := (hwalk.exact found hfound).2
    obtain ⟨nearer, u, hdistance, -, -⟩ := hexact.nearer
    have hshown := shown_of_reachIn hexact.distance.reach
    have hzero := hexact.distance.shortest 0 (.root ⟨List.mem_singleton.2 heq, hshown⟩)
    omega
  constructor
  case once =>
    rw [hids]
    exact hwalk.nodup
  case nearest =>
    intro neighbor hneighbor
    obtain ⟨found, hfound, rfl⟩ := List.mem_map.1 hneighbor
    obtain ⟨hdepth, hexact⟩ := hwalk.exact found hfound
    exact ⟨hroot found hfound, hdepth, hexact.distance⟩
  case edge =>
    intro neighbor hneighbor
    obtain ⟨found, hfound, rfl⟩ := List.mem_map.1 hneighbor
    obtain ⟨-, hexact⟩ := hwalk.exact found hfound
    obtain ⟨nearer, u, hdistance, horiented, hnearer⟩ := hexact.nearer
    exact ⟨found.hop.edge, hexact.member, hexact.walkable, rfl, rfl, rfl, rfl, nearer, u, hdistance, hnearer, horiented⟩
  case capped =>
    rw [List.length_map]
    exact hwalk.capped
  case complete =>
    intro hlt length hlength v hne hpath
    rw [List.length_map] at hlt
    rw [hids]
    cases ((hwalk.leveled hlt).visited v).2 ⟨length, hlength, visiblePath_iff.1 hpath⟩ with
    | inl hroot => exact absurd (List.mem_singleton.1 hroot.1) hne
    | inr hfound => exact hfound
  case nearest_first =>
    intro hfull length v hne hpath homitted neighbor hneighbor
    rw [List.length_map] at hfull
    rw [hids] at homitted
    obtain ⟨last, hlast, hnearer⟩ := hwalk.full hfull
    obtain ⟨found, hfound, rfl⟩ := List.mem_map.1 hneighbor
    apply (hlast found hfound).trans
    by_contra hlt
    cases hnearer length (by omega) v (visiblePath_iff.1 hpath) with
    | inl hroot => exact hne hroot
    | inr hmem => exact homitted hmem

/-- The two public files are each other's neighborhood. -/
theorem get_neighbors_exact_hub : ∃ response,
    get_neighbors .plain (repo_database [0, 3]) outsider { artifact_id := 1, depth := 3 } = .ok response ∧
      NeighborsExact .plain (repo_database [0, 3]) 1 outsider { artifact_id := 1, depth := 3 } response.neighbors :=
  get_neighbors_exact .plain (repo_database [0, 3]) outsider { artifact_id := 1, depth := 3 }
    (show (⟨"v1", 1⟩ : ActiveVersion) ∈ fetch_active_version (repo_database [0, 3]) by decide +kernel)

end AgenticKb.ContextBroker

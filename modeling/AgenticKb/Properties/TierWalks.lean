import Mathlib.Algebra.GroupWithZero.Nat
import AgenticKb.Properties.NeighborDistances

open AgenticKb.Lib

namespace AgenticKb.ContextBroker

section Tier

variable {deps : BrokerDeps} {db : Database} {build_seq : Nat} {requester : Requester} {trust_floor : TrustFloor}
  {include_inferred : Bool} {frontier visited : List Uuid} {root : Uuid → Prop} {n : Nat}

/-- The nodes of a level of a tier. -/
theorem level_rows_nodes (deps : BrokerDeps) (db : Database) (build_seq : Nat) (requester : Requester)
    (trust_floor : TrustFloor) (include_inferred : Bool) (frontier visited : List Uuid) :
    (level_rows deps db build_seq requester trust_floor include_inferred frontier visited).map (·.1) =
      shown_nodes deps.platform db build_seq requester none trust_floor include_inferred frontier visited :=
  map_filterMap_allowed _ fun _ _ => rfl

theorem row_of_mem_level_rows {entry : Uuid × ArtifactRow}
    (h : entry ∈ level_rows deps db build_seq requester trust_floor include_inferred frontier visited) :
    visible_row deps.platform db build_seq requester entry.2.artifact_id = some entry.2 := by
  obtain ⟨hop, hhop, hrow⟩ := List.mem_filterMap.1 h
  rw [allowed_by_id_eq (List.mem_map_of_mem hhop)] at hrow
  obtain ⟨row, hvisible, rfl⟩ := Option.map_eq_some_iff.1 hrow
  dsimp only
  rw [(artifact_id_of_visible_row hvisible).2]
  exact hvisible

theorem level_rows_ids :
    ((level_rows deps db build_seq requester trust_floor include_inferred frontier visited).map (·.2)).map
        (·.artifact_id) =
      (level_rows deps db build_seq requester trust_floor include_inferred frontier visited).map (·.1) := by
  rw [List.map_map]
  exact List.map_congr_left fun entry hentry => (mem_level_rows hentry).2.1

/-- What a tier gathers from where it starts: everything it can reach and has not visited, once each and nearest first. -/
structure TierExact (deps : BrokerDeps) (db : Database) (build_seq : Nat) (requester : Requester)
    (walkable : EdgeRow → Bool) (root : Uuid → Prop) (visited : List Uuid) (tier : List ArtifactRow × List Uuid) :
    Prop where
  rows : ∀ row ∈ tier.1, visible_row deps.platform db build_seq requester row.artifact_id = some row
  once : (tier.1.map (·.artifact_id)).Nodup
  reached : ∀ v, v ∈ tier.1.map (·.artifact_id) ↔
    v ∉ visited ∧ ∃ m, ReachIn (VisibleStep deps.platform db build_seq requester walkable) root m v
  nearest_first : (tier.1.map (·.artifact_id)).Pairwise fun u v =>
    ∀ m, ReachIn (VisibleStep deps.platform db build_seq requester walkable) root m v →
      ∃ l ≤ m, ReachIn (VisibleStep deps.platform db build_seq requester walkable) root l u
  seen : ∀ v, shown deps.platform db build_seq requester v = true →
    (v ∈ tier.2 ↔ ∃ m, ReachIn (VisibleStep deps.platform db build_seq requester walkable) root m v)

/-- One edge of a tier's walk. -/
abbrev TierStep (deps : BrokerDeps) (db : Database) (build_seq : Nat) (requester : Requester) (trust_floor : TrustFloor)
    (include_inferred : Bool) : Uuid → Uuid → Prop :=
  VisibleStep deps.platform db build_seq requester (level_walkable none trust_floor include_inferred)

/-- Where a search stands nowhere, it has nothing left to gather. -/
theorem tierExact_nil
    (hlevel : Leveled (TierStep deps db build_seq requester trust_floor include_inferred) root n
      (fun v => shown deps.platform db build_seq requester v = true ∧ v ∈ visited) (fun v => v ∈ ([] : List Uuid))) :
    TierExact deps db build_seq requester (level_walkable none trust_floor include_inferred) root visited
      (bfs_tier deps db build_seq requester trust_floor include_inferred [] visited) := by
  have hall : ∀ {m v}, ReachIn (TierStep deps db build_seq requester trust_floor include_inferred) root m v →
      v ∈ visited :=
    fun hreach => (hlevel.done (by simp) hreach).2
  rw [bfs_tier_nil]
  constructor
  case rows => simp
  case once => exact List.nodup_nil
  case reached =>
    intro v
    simp only [List.map_nil, List.not_mem_nil, false_iff, not_and]
    rintro hnew ⟨m, hreach⟩
    exact hnew (hall hreach)
  case nearest_first => exact List.Pairwise.nil
  case seen =>
    intro v hv
    constructor
    · intro hmem
      obtain ⟨m, -, hreach⟩ := (hlevel.visited v).1 ⟨hv, hmem⟩
      exact ⟨m, hreach⟩
    · rintro ⟨m, hreach⟩
      exact hall hreach

/-- The nodes of a level: once each, and all that are shown, new and next to the frontier. -/
theorem level_rows_exact (deps : BrokerDeps) (db : Database) (build_seq : Nat) (requester : Requester)
    (trust_floor : TrustFloor) (include_inferred : Bool) (hsub : ∀ v ∈ frontier, v ∈ visited) :
    ((level_rows deps db build_seq requester trust_floor include_inferred frontier visited).map (·.1)).Nodup ∧
      ∀ v, v ∈ (level_rows deps db build_seq requester trust_floor include_inferred frontier visited).map (·.1) ↔
        shown deps.platform db build_seq requester v = true ∧ v ∉ visited ∧
          ∃ u ∈ frontier, TierStep deps db build_seq requester trust_floor include_inferred u v := by
  rw [level_rows_nodes]
  exact shown_nodes_exact deps.platform db build_seq requester none trust_floor include_inferred hsub

/-- What is visited after a level. -/
theorem mem_visited_level (hsub : ∀ v ∈ frontier, v ∈ visited) {v : Uuid}
    (hv : shown deps.platform db build_seq requester v = true) :
    v ∈ (admitted_hops db build_seq none trust_floor include_inferred frontier visited).1 ↔ v ∈ visited ∨
      v ∈ (level_rows deps db build_seq requester trust_floor include_inferred frontier visited).map (·.1) := by
  rw [mem_visited_admitted_hops deps.platform db build_seq requester none trust_floor include_inferred hsub hv,
    level_rows_nodes]

theorem leveled_level_rows (hsub : ∀ v ∈ frontier, v ∈ visited)
    (hlevel : Leveled (TierStep deps db build_seq requester trust_floor include_inferred) root n
      (fun v => shown deps.platform db build_seq requester v = true ∧ v ∈ visited) (· ∈ frontier)) :
    Leveled (TierStep deps db build_seq requester trust_floor include_inferred) root (n + 1)
      (fun v => shown deps.platform db build_seq requester v = true ∧
        v ∈ (admitted_hops db build_seq none trust_floor include_inferred frontier visited).1)
      (· ∈ (level_rows deps db build_seq requester trust_floor include_inferred frontier visited).map (·.1)) := by
  obtain ⟨-, hnodes⟩ := level_rows_exact deps db build_seq requester trust_floor include_inferred hsub
  have hfresh : ∀ v, v ∈ (level_rows deps db build_seq requester trust_floor include_inferred frontier visited).map
      (·.1) ↔ ¬ (shown deps.platform db build_seq requester v = true ∧ v ∈ visited) ∧ ∃ u, u ∈ frontier ∧
        TierStep deps db build_seq requester trust_floor include_inferred u v := by
    intro v
    rw [hnodes v]
    constructor
    · rintro ⟨-, hnew, hstep⟩
      exact ⟨fun hold => hnew hold.2, hstep⟩
    · rintro ⟨hnew, u, hu, hstep⟩
      exact ⟨hstep.1, fun hold => hnew ⟨hstep.1, hold⟩, u, hu, hstep⟩
  refine (hlevel.next hfresh).congr (fun v => ?_) fun _ => Iff.rfl
  constructor
  · rintro ⟨hv, hmem⟩
    exact ((mem_visited_level hsub hv).1 hmem).imp_left fun hold => ⟨hv, hold⟩
  · intro hmem
    have hv : shown deps.platform db build_seq requester v = true := hmem.elim (·.1) fun hnew => ((hnodes v).1 hnew).1
    exact ⟨hv, (mem_visited_level hsub hv).2 (hmem.imp_left (·.2))⟩

/-- A level before the rest of a tier: its nodes are nearer than all that follows. -/
theorem TierExact.level (hroot : ∀ v, root v → shown deps.platform db build_seq requester v = true)
    (hsub : ∀ v ∈ frontier, v ∈ visited)
    (hnext : Leveled (TierStep deps db build_seq requester trust_floor include_inferred) root (n + 1)
      (fun v => shown deps.platform db build_seq requester v = true ∧
        v ∈ (admitted_hops db build_seq none trust_floor include_inferred frontier visited).1)
      (· ∈ (level_rows deps db build_seq requester trust_floor include_inferred frontier visited).map (·.1)))
    {rest : List ArtifactRow × List Uuid}
    (hrest : TierExact deps db build_seq requester (level_walkable none trust_floor include_inferred) root
      (admitted_hops db build_seq none trust_floor include_inferred frontier visited).1 rest) :
    TierExact deps db build_seq requester (level_walkable none trust_floor include_inferred) root visited
      ((level_rows deps db build_seq requester trust_floor include_inferred frontier visited).map (·.2) ++ rest.1,
        rest.2) := by
  obtain ⟨hnodup, hnodes⟩ := level_rows_exact deps db build_seq requester trust_floor include_inferred hsub
  constructor
  case rows =>
    intro row hrow
    cases List.mem_append.1 hrow with
    | inl hnow =>
      obtain ⟨entry, hentry, rfl⟩ := List.mem_map.1 hnow
      exact row_of_mem_level_rows hentry
    | inr hlater => exact hrest.rows row hlater
  case once =>
    dsimp only
    rw [List.map_append, level_rows_ids]
    refine List.nodup_append.2 ⟨hnodup, hrest.once, fun v hv w hw heq => ?_⟩
    exact ((hrest.reached w).1 hw).1 (heq ▸ (mem_visited_level hsub ((hnodes v).1 hv).1).2 (.inr hv))
  case reached =>
    intro v
    dsimp only
    rw [List.map_append, level_rows_ids, List.mem_append]
    constructor
    · intro hmem
      cases hmem with
      | inl hnow => exact ⟨((hnodes v).1 hnow).2.1, n + 1, ((hnext.frontier v).1 hnow).reach⟩
      | inr hlater =>
        obtain ⟨hnew, m, hreach⟩ := (hrest.reached v).1 hlater
        exact ⟨fun hold => hnew ((mem_visited_level hsub (shown_of_reach hroot hreach)).2 (.inl hold)), m, hreach⟩
    · rintro ⟨hnew, m, hreach⟩
      by_cases hseen : v ∈ (admitted_hops db build_seq none trust_floor include_inferred frontier visited).1
      · exact .inl (((mem_visited_level hsub (shown_of_reach hroot hreach)).1 hseen).resolve_left hnew)
      · exact .inr ((hrest.reached v).2 ⟨hseen, m, hreach⟩)
  case nearest_first =>
    dsimp only
    rw [List.map_append, level_rows_ids]
    refine List.pairwise_append.2 ⟨?_, hrest.nearest_first, fun u hu v hv m hreach => ?_⟩
    · refine List.Pairwise.imp_of_mem (fun hu hv _ m hreach => ?_) hnodup
      exact ⟨n + 1, ((hnext.frontier _).1 hv).shortest m hreach, ((hnext.frontier _).1 hu).reach⟩
    · refine ⟨n + 1, ?_, ((hnext.frontier u).1 hu).reach⟩
      by_contra hlt
      exact ((hrest.reached v).1 hv).1 ((hnext.visited v).2 ⟨m, by omega, hreach⟩).2
  case seen => exact hrest.seen

theorem tierExact_bfs_tier (hroot : ∀ v, root v → shown deps.platform db build_seq requester v = true)
    (hsub : ∀ v ∈ frontier, v ∈ visited)
    (hlevel : Leveled (VisibleStep deps.platform db build_seq requester (level_walkable none trust_floor include_inferred))
      root n (fun v => shown deps.platform db build_seq requester v = true ∧ v ∈ visited) (· ∈ frontier)) :
    TierExact deps db build_seq requester (level_walkable none trust_floor include_inferred) root visited
      (bfs_tier deps db build_seq requester trust_floor include_inferred frontier visited) := by
  induction hleft : unvisited (edge_ends db build_seq) visited using Nat.strong_induction_on
    generalizing frontier visited n with
  | h left ih =>
    by_cases hne : frontier = []
    · subst hne
      exact tierExact_nil hlevel
    have hnext := leveled_level_rows hsub hlevel
    rw [bfs_tier_eq hne]
    apply TierExact.level hroot hsub hnext
    -- the rest of the tier, from the next level on
    by_cases hrows : level_rows deps db build_seq requester trust_floor include_inferred frontier visited = []
    · rw [hrows] at hnext ⊢
      exact tierExact_nil hnext
    · have hsome : (admitted_hops db build_seq none trust_floor include_inferred frontier visited).2 ≠ [] := by
        intro hnone
        rw [level_rows, hnone, List.filterMap_nil] at hrows
        exact hrows rfl
      refine ih _ (hleft ▸ unvisited_admitted_hops hsome) (fun v hv => ?_) hnext rfl
      exact (mem_visited_level hsub (((level_rows_exact deps db build_seq requester _ _ hsub).2 v).1 hv).1).2 (.inr hv)

end Tier

section Gathering

/-- The backbone edges. -/
def is_extracted (e : EdgeRow) : Bool := e.trust_class == .EXTRACTED

theorem level_walkable_extracted (trust_floor : TrustFloor) :
    level_walkable none trust_floor false = is_extracted := by
  funext e
  unfold level_walkable is_extracted
  cases e.trust_class with
  | EXTRACTED => simp
  | INFERRED_HIGH => rfl
  | INFERRED_LOW => rfl
  | AMBIGUOUS => rfl
  | REJECTED => rfl

theorem level_walkable_expand (request : ExpandRequest) :
    level_walkable none request.trust_floor request.include_inferred = request.walkable := by
  funext e
  rw [level_walkable, ExpandRequest.walkable, Option.all_none, Bool.and_true]

theorem walkable_of_is_extracted {request : ExpandRequest} {e : EdgeRow} (h : is_extracted e = true) :
    request.walkable e = true := by
  rw [ExpandRequest.walkable, beq_iff_eq.1 h]
  exact admits_extracted _ _

/-- What an expansion gathers before it makes cards: the seeds the requester may see; what they reach over the backbone,
nearest first; then what the inferred edges add. Together it is what one walk over all the edges asked for would gather. -/
structure Gathered (deps : BrokerDeps) (db : Database) (build_seq : Nat) (requester : Requester)
    (request : ExpandRequest) (seeds extracted inferred : List ArtifactRow) : Prop where
  seeds_eq : seeds = (visible_rows deps.platform db build_seq requester).filter fun row =>
    request.seed_artifact_ids.contains row.artifact_id
  rows : ∀ row ∈ extracted ++ inferred, visible_row deps.platform db build_seq requester row.artifact_id = some row
  once : ((extracted ++ inferred).map (·.artifact_id)).Nodup
  extracted_iff : ∀ v, v ∈ extracted.map (·.artifact_id) ↔ v ∉ request.seed_artifact_ids ∧
    ∃ length, VisiblePath deps db build_seq requester is_extracted request.seed_artifact_ids length v
  nearest_first : (extracted.map (·.artifact_id)).Pairwise fun u v =>
    ∀ length, VisiblePath deps db build_seq requester is_extracted request.seed_artifact_ids length v →
      ∃ shorter ≤ length, VisiblePath deps db build_seq requester is_extracted request.seed_artifact_ids shorter u
  inferred_iff : ∀ v, v ∈ inferred.map (·.artifact_id) ↔ request.include_inferred = true ∧
    (¬ ∃ length, VisiblePath deps db build_seq requester is_extracted request.seed_artifact_ids length v) ∧
    ∃ length, VisiblePath deps db build_seq requester request.walkable request.seed_artifact_ids length v
  one_walk : ∀ v, v ∈ (seeds ++ extracted ++ inferred).map (·.artifact_id) ↔
    ∃ length, VisiblePath deps db build_seq requester request.walkable request.seed_artifact_ids length v

/-- What the cards of some rows cost. -/
def rows_cost (deps : BrokerDeps) (rows : List ArtifactRow) : Nat :=
  (rows.map fun row => card_tokens deps (build_card deps row none)).sum

/-- The cards for the longest run of rows that the card cap and the budget take. -/
structure LongestRun (deps : BrokerDeps) (budget : Nat) (rows : List ArtifactRow) (response : ExpandResponse) (n : Nat) :
    Prop where
  cards : response.cards = (rows.take n).map fun row => build_card deps row none
  cost : response.tokens_used = (response.cards.map (card_tokens deps)).sum
  all_there : n ≤ rows.length
  few : n ≤ MAX_EXPAND_CARDS
  fits : response.tokens_used ≤ budget
  longest : ∀ m ≤ rows.length, m ≤ MAX_EXPAND_CARDS → rows_cost deps (rows.take m) ≤ budget → m ≤ n
  truncated : response.truncated = decide (n < rows.length)

variable {deps : BrokerDeps} {db : Database} {build_seq : Nat} {requester : Requester} {request : ExpandRequest}

theorem seeds_eq (deps : BrokerDeps) (db : Database) (build_seq : Nat) (requester : Requester) (request : ExpandRequest) :
    allowed_seeds deps db build_seq requester request =
      (visible_rows deps.platform db build_seq requester).filter fun row =>
        request.seed_artifact_ids.contains row.artifact_id := by
  rw [allowed_seeds, filter_artifacts, fetch_artifacts, visible_rows, filter_artifacts, List.filter_comm]

/-- The seeds a walk starts from are those the requester may see. -/
theorem mem_seed_ids_iff {v : Uuid} :
    v ∈ seed_ids (allowed_seeds deps db build_seq requester request) ↔
      VisibleRoot deps.platform db build_seq requester request.seed_artifact_ids v := by
  constructor
  · intro h
    obtain ⟨row, hrow, rfl⟩ := row_of_mem_seed_ids h
    exact mem_allowed_seeds hrow
  · rintro ⟨hseed, hshown⟩
    obtain ⟨row, hrow, hid⟩ := List.any_eq_true.1 hshown
    have hmem : row ∈ allowed_seeds deps db build_seq requester request := by
      rw [seeds_eq, List.mem_filter, List.contains_iff_mem, beq_iff_eq.1 hid]
      exact ⟨hrow, hseed⟩
    obtain ⟨found, hfound⟩ : ∃ found, (allowed_seeds deps db build_seq requester request).reverse.find?
        (fun row => row.artifact_id == v) = some found :=
      Option.isSome_iff_exists.1 (List.find?_isSome.2 ⟨row, List.mem_reverse.2 hmem, hid⟩)
    refine List.mem_map.2 ⟨(v, found), Dict.mem_of_get? ?_, rfl⟩
    rw [Dict.get?_foldl_set (fun row : ArtifactRow => row.artifact_id) fun row => row, hfound]
    rfl

/-- A walk that starts at all that a first walk over fewer edges has reached gets as far as one from its roots. -/
theorem reachIn_restart {walkable first : EdgeRow → Bool} (hfirst : ∀ e, first e = true → walkable e = true)
    {p : Platform} {roots : List Uuid} {v : Uuid} :
    (∃ m, ReachIn (VisibleStep p db build_seq requester walkable)
      (fun u => ∃ l, ReachIn (VisibleStep p db build_seq requester first) (VisibleRoot p db build_seq requester roots) l u)
        m v) ↔
      ∃ m, ReachIn (VisibleStep p db build_seq requester walkable) (VisibleRoot p db build_seq requester roots) m v := by
  constructor
  · rintro ⟨m, h⟩
    induction h with
    | root hroot =>
      obtain ⟨l, hreach⟩ := hroot
      refine ⟨l, ?_⟩
      clear m
      induction hreach with
      | root hroot => exact .root hroot
      | step _ hadj ih =>
        obtain ⟨hshown, e, hmember, hwalkable, hends⟩ := hadj
        exact .step ih ⟨hshown, e, hmember, hfirst e hwalkable, hends⟩
    | step _ hadj ih =>
      obtain ⟨m, hreach⟩ := ih
      exact ⟨m + 1, .step hreach hadj⟩
  · rintro ⟨m, h⟩
    refine ⟨m, ?_⟩
    induction h with
    | root hroot => exact .root ⟨0, .root hroot⟩
    | step _ hadj ih => exact .step ih hadj

section Tiers

variable (deps : BrokerDeps) (db : Database) (build_seq : Nat) (requester : Requester) (request : ExpandRequest)

/-- The first tier, over the backbone. -/
def extracted_tier : List ArtifactRow × List Uuid :=
  bfs_tier deps db build_seq requester request.trust_floor false
    (seed_ids (allowed_seeds deps db build_seq requester request)) request.seed_artifact_ids

/-- The second, from everything the first has gathered. -/
def inferred_tier : List ArtifactRow × List Uuid :=
  bfs_tier deps db build_seq requester request.trust_floor true
    (seed_ids (allowed_seeds deps db build_seq requester request) ++
      (extracted_tier deps db build_seq requester request).1.map (·.artifact_id))
    (extracted_tier deps db build_seq requester request).2

theorem expand_rows_eq : expand_rows deps db build_seq requester request =
    allowed_seeds deps db build_seq requester request ++ (extracted_tier deps db build_seq requester request).1 ++
      if request.include_inferred then (inferred_tier deps db build_seq requester request).1 else [] := rfl

/-- What the backbone reaches from the seeds. -/
def OnBackbone (v : Uuid) : Prop :=
  ∃ length, ReachIn (VisibleStep deps.platform db build_seq requester is_extracted)
    (VisibleRoot deps.platform db build_seq requester request.seed_artifact_ids) length v

theorem extracted_tier_exact : TierExact deps db build_seq requester is_extracted
    (VisibleRoot deps.platform db build_seq requester request.seed_artifact_ids) request.seed_artifact_ids
    (extracted_tier deps db build_seq requester request) := by
  rw [← level_walkable_extracted request.trust_floor]
  apply tierExact_bfs_tier
  · exact fun v hv => hv.2
  · exact fun v hv => (mem_seed_ids_iff.1 hv).1
  · exact leveled_roots.congr (fun v => and_comm) fun v => mem_seed_ids_iff

/-- What the second tier starts from is what the first has reached. -/
theorem mem_inferred_start {v : Uuid} :
    v ∈ seed_ids (allowed_seeds deps db build_seq requester request) ++
        (extracted_tier deps db build_seq requester request).1.map (·.artifact_id) ↔
      OnBackbone deps db build_seq requester request v := by
  have hexact := extracted_tier_exact deps db build_seq requester request
  rw [List.mem_append, mem_seed_ids_iff, hexact.reached v]
  constructor
  · intro h
    cases h with
    | inl hroot => exact ⟨0, .root hroot⟩
    | inr hreached => exact hreached.2
  · intro h
    by_cases hseed : v ∈ request.seed_artifact_ids
    · obtain ⟨length, hreach⟩ := h
      exact .inl ⟨hseed, shown_of_reachIn hreach⟩
    · exact .inr ⟨hseed, h⟩

theorem inferred_tier_exact (hasked : request.include_inferred = true) :
    TierExact deps db build_seq requester request.walkable (OnBackbone deps db build_seq requester request)
      (extracted_tier deps db build_seq requester request).2 (inferred_tier deps db build_seq requester request) := by
  have hexact := extracted_tier_exact deps db build_seq requester request
  have hshown : ∀ v, OnBackbone deps db build_seq requester request v →
      shown deps.platform db build_seq requester v = true := fun v hv => hv.elim fun _ hreach => shown_of_reachIn hreach
  rw [← level_walkable_expand, hasked]
  apply tierExact_bfs_tier
  · exact hshown
  · intro v hv
    rw [mem_inferred_start] at hv
    exact (hexact.seen v (hshown v hv)).2 hv
  · refine leveled_roots.congr (fun v => ?_) fun v => mem_inferred_start deps db build_seq requester request
    exact ⟨fun hv => (hexact.seen v hv.1).1 hv.2, fun hv => ⟨hshown v hv, (hexact.seen v (hshown v hv)).2 hv⟩⟩

/-- What all its edges reach from the seeds, they reach from the backbone. -/
theorem reach_whole_iff (v : Uuid) :
    (∃ length, VisiblePath deps db build_seq requester request.walkable request.seed_artifact_ids length v) ↔
      ∃ m, ReachIn (VisibleStep deps.platform db build_seq requester request.walkable)
        (OnBackbone deps db build_seq requester request) m v :=
  (exists_congr fun _ => visiblePath_iff).trans (reachIn_restart fun _ => walkable_of_is_extracted).symm

/-- What the second tier adds, when it was asked for: everything off the backbone that the walk reaches. -/
theorem mem_inferred_rows (v : Uuid) :
    v ∈ (if request.include_inferred then (inferred_tier deps db build_seq requester request).1 else []).map
        (·.artifact_id) ↔
      request.include_inferred = true ∧ ¬ OnBackbone deps db build_seq requester request v ∧
        ∃ m, ReachIn (VisibleStep deps.platform db build_seq requester request.walkable)
          (OnBackbone deps db build_seq requester request) m v := by
  have hfirst := extracted_tier_exact deps db build_seq requester request
  by_cases hasked : request.include_inferred = true
  · have hsecond := inferred_tier_exact deps db build_seq requester request hasked
    rw [if_pos hasked, hsecond.reached v]
    constructor
    · rintro ⟨hnew, m, hreach⟩
      refine ⟨hasked, fun hold => hnew ?_, m, hreach⟩
      exact (hfirst.seen v (hold.elim fun _ hold => shown_of_reachIn hold)).2 hold
    · rintro ⟨-, hnew, m, hreach⟩
      obtain ⟨length, hpath⟩ := (reach_whole_iff deps db build_seq requester request v).2 ⟨m, hreach⟩
      refine ⟨fun hold => hnew ?_, m, hreach⟩
      exact (hfirst.seen v (shown_of_reachIn (visiblePath_iff.1 hpath))).1 hold
  · rw [if_neg hasked]
    simp [hasked]

/-- The seeds and the first tier are what the backbone reaches. -/
theorem mem_backbone_rows (v : Uuid) :
    v ∈ (allowed_seeds deps db build_seq requester request).map (·.artifact_id) ∨
        v ∈ (extracted_tier deps db build_seq requester request).1.map (·.artifact_id) ↔
      OnBackbone deps db build_seq requester request v := by
  rw [← mem_inferred_start, List.mem_append]
  apply or_congr_left
  rw [mem_seed_ids_iff]
  constructor
  · intro hv
    obtain ⟨row, hrow, rfl⟩ := List.mem_map.1 hv
    exact mem_allowed_seeds hrow
  · intro hv
    obtain ⟨row, hrow, rfl⟩ := row_of_mem_seed_ids (mem_seed_ids_iff.2 hv)
    exact List.mem_map_of_mem hrow

/-- The rows of an expansion, part by part. -/
theorem gathered_expand_rows :
    Gathered deps db build_seq requester request (allowed_seeds deps db build_seq requester request)
      (extracted_tier deps db build_seq requester request).1
      (if request.include_inferred then (inferred_tier deps db build_seq requester request).1 else []) := by
  have hfirst := extracted_tier_exact deps db build_seq requester request
  have hwhole := reach_whole_iff deps db build_seq requester request
  have hinferred := mem_inferred_rows deps db build_seq requester request
  have hbackbone : ∀ v, (∃ length, VisiblePath deps db build_seq requester is_extracted request.seed_artifact_ids
      length v) ↔ OnBackbone deps db build_seq requester request v :=
    fun v => exists_congr fun length => visiblePath_iff
  constructor
  case seeds_eq => exact seeds_eq deps db build_seq requester request
  case rows =>
    intro row hrow
    cases List.mem_append.1 hrow with
    | inl hextracted => exact hfirst.rows row hextracted
    | inr hrest =>
      by_cases hasked : request.include_inferred = true
      · rw [if_pos hasked] at hrest
        exact (inferred_tier_exact deps db build_seq requester request hasked).rows row hrest
      · rw [if_neg hasked] at hrest
        cases hrest
  case once =>
    rw [List.map_append]
    refine List.nodup_append.2 ⟨hfirst.once, ?_, fun v hv w hw heq => ?_⟩
    · by_cases hasked : request.include_inferred = true
      · rw [if_pos hasked]
        exact (inferred_tier_exact deps db build_seq requester request hasked).once
      · rw [if_neg hasked]
        exact List.nodup_nil
    · exact ((hinferred w).1 hw).2.1 (heq ▸ ((hfirst.reached v).1 hv).2)
  case extracted_iff =>
    intro v
    rw [hfirst.reached v, hbackbone v]
    rfl
  case nearest_first =>
    refine hfirst.nearest_first.imp fun h length hpath => ?_
    obtain ⟨shorter, hle, hreach⟩ := h length (visiblePath_iff.1 hpath)
    exact ⟨shorter, hle, visiblePath_iff.2 hreach⟩
  case inferred_iff =>
    intro v
    rw [hinferred v, hbackbone v, hwhole v]
  case one_walk =>
    intro v
    rw [List.map_append, List.map_append, List.mem_append, List.mem_append,
      mem_backbone_rows deps db build_seq requester request v, hinferred v, hwhole v]
    constructor
    · intro h
      cases h with
      | inl hold => exact ⟨0, .root hold⟩
      | inr hnew => exact hnew.2.2
    · rintro ⟨m, hreach⟩
      by_cases hold : OnBackbone deps db build_seq requester request v
      · exact .inl hold
      · refine .inr ⟨?_, hold, m, hreach⟩
        -- without the inferred edges nothing lies off the backbone
        by_contra hasked
        have hsame : request.walkable = is_extracted := by
          rw [← level_walkable_expand, Bool.eq_false_iff.2 hasked, level_walkable_extracted]
        apply hold
        rw [← hbackbone v, ← hsame]
        exact (hwhole v).2 ⟨m, hreach⟩

end Tiers

/-- The loop over the rows, from the cards it has taken so far. -/
theorem take_cards_exact (deps : BrokerDeps) (budget : Nat) (rows : List ArtifactRow) {cards : List EvidenceCard}
    {tokens_used : Nat} (hfew : cards.length ≤ MAX_EXPAND_CARDS) (hfits : tokens_used ≤ budget) :
    ∃ n ≤ rows.length, take_cards deps budget rows cards tokens_used =
        (cards ++ (rows.take n).map fun row => build_card deps row none, tokens_used + rows_cost deps (rows.take n),
          decide (n < rows.length)) ∧
      cards.length + n ≤ MAX_EXPAND_CARDS ∧ tokens_used + rows_cost deps (rows.take n) ≤ budget ∧
      ∀ m ≤ rows.length, cards.length + m ≤ MAX_EXPAND_CARDS → tokens_used + rows_cost deps (rows.take m) ≤ budget →
        m ≤ n := by
  induction rows generalizing cards tokens_used with
  | nil => exact ⟨0, Nat.le_refl 0, by simp [take_cards, rows_cost], hfew, hfits, fun m hm _ _ => hm⟩
  | cons row rows ih =>
    unfold take_cards
    by_cases hmany : MAX_EXPAND_CARDS ≤ cards.length
    · rw [if_pos hmany]
      exact ⟨0, Nat.zero_le _, by simp [rows_cost], hfew, hfits, fun m _ hm _ => by omega⟩
    rw [if_neg hmany]
    dsimp only
    by_cases hdear : budget < tokens_used + card_tokens deps (build_card deps row none)
    · rw [if_pos hdear]
      refine ⟨0, Nat.zero_le _, by simp [rows_cost], hfew, hfits, fun m _ _ hcost => ?_⟩
      cases m with
      | zero => exact Nat.le_refl 0
      | succ m =>
        rw [rows_cost, List.take_succ_cons, List.map_cons, List.sum_cons] at hcost
        omega
    · rw [if_neg hdear]
      have hmore : (cards ++ [build_card deps row none]).length ≤ MAX_EXPAND_CARDS := by
        rw [List.length_append, List.length_singleton]
        omega
      obtain ⟨n, hn, heq, hcount, hcost, hlongest⟩ := ih hmore (not_lt.1 hdear)
      rw [List.length_append, List.length_singleton] at hcount
      have hsum : ∀ m, rows_cost deps ((row :: rows).take (m + 1)) =
          card_tokens deps (build_card deps row none) + rows_cost deps (rows.take m) := by
        intro m
        rw [rows_cost, List.take_succ_cons, List.map_cons, List.sum_cons, rows_cost]
      refine ⟨n + 1, Nat.succ_le_succ hn, ?_, by omega, ?_, fun m hm hfew hfits => ?_⟩
      · rw [heq, hsum, List.take_succ_cons, List.map_cons, List.append_assoc, List.singleton_append, Nat.add_assoc,
          List.length_cons]
        simp
      · rw [hsum, ← Nat.add_assoc]
        exact hcost
      · cases m with
        | zero => exact Nat.zero_le _
        | succ m =>
          rw [hsum, ← Nat.add_assoc] at hfits
          apply Nat.succ_le_succ
          apply hlongest m (Nat.le_of_succ_le_succ hm) _ hfits
          rw [List.length_append, List.length_singleton]
          omega

variable (deps db build_seq requester request) in
theorem longestRun_expand_cards (budget : Nat) (held : List Uuid) : ∃ n,
    LongestRun deps budget ((expand_rows deps db build_seq requester request).filter fun row =>
      !held.contains row.artifact_id) (expand_cards deps db build_seq requester request budget held) n := by
  unfold expand_cards
  generalize (expand_rows deps db build_seq requester request).filter (fun row => !held.contains row.artifact_id) = rows
  obtain ⟨n, hn, heq, hfew, hfits, hlongest⟩ :=
    take_cards_exact deps budget rows (List.length_nil.trans_le (Nat.zero_le MAX_EXPAND_CARDS)) (Nat.zero_le budget)
  dsimp only
  rw [heq]
  simp only [List.nil_append, Nat.zero_add, List.length_nil] at hfew hfits hlongest ⊢
  refine ⟨n, rfl, ?_, hn, hfew, hfits, hlongest, rfl⟩
  rw [rows_cost, List.map_map]
  rfl

end Gathering

/-- `context.expand` gathers exactly what it may and returns as many of the nearest cards as fit. -/
theorem expand_exact (deps : BrokerDeps) (db : Database) (packs : Dict String PackState) (requester : Requester)
    (request : ExpandRequest) {active : ActiveVersion} (hactive : active ∈ fetch_active_version db)
    {response : ExpandResponse} (hresponse : expand deps db packs requester request = .ok response) :
    ∃ seeds extracted inferred n,
      Gathered deps db active.build_seq requester request seeds extracted inferred ∧
      LongestRun deps (effective_budget deps request (request.context_pack_id.bind packs.get?))
        ((seeds ++ extracted ++ inferred).filter fun row =>
          !(pack_artifact_ids (request.context_pack_id.bind packs.get?)).contains row.artifact_id) response n := by
  have hcards : response = expand_cards deps db active.build_seq requester request
      (effective_budget deps request (request.context_pack_id.bind packs.get?))
      (pack_artifact_ids (request.context_pack_id.bind packs.get?)) := by
    rw [expand, Option.mem_def.1 hactive] at hresponse
    dsimp only at hresponse
    cases hid : request.context_pack_id with
    | none =>
      rw [hid] at hresponse
      exact (Except.ok.inj hresponse).symm
    | some context_pack_id =>
      rw [hid] at hresponse
      dsimp only at hresponse
      rw [Option.bind_some]
      cases hpack : packs.get? context_pack_id with
      | none =>
        rw [hpack] at hresponse
        cases hresponse
      | some pack =>
        rw [hpack] at hresponse
        exact (Except.ok.inj hresponse).symm
  obtain ⟨n, hrun⟩ := longestRun_expand_cards deps db active.build_seq requester request
    (effective_budget deps request (request.context_pack_id.bind packs.get?))
    (pack_artifact_ids (request.context_pack_id.bind packs.get?))
  rw [← hcards, expand_rows_eq] at hrun
  exact ⟨_, _, _, n, gathered_expand_rows deps db active.build_seq requester request, hrun⟩

/-- From the first public file the walk gathers the second. -/
theorem expand_exact_hub : ∃ response,
    expand .plain (repo_database [0, 3]) [] outsider { seed_artifact_ids := [1], budget_tokens := 1000 } = .ok response ∧
      ∃ seeds extracted inferred n,
        Gathered .plain (repo_database [0, 3]) 1 outsider { seed_artifact_ids := [1], budget_tokens := 1000 } seeds
          extracted inferred ∧
        LongestRun .plain (effective_budget .plain { seed_artifact_ids := [1], budget_tokens := 1000 } none)
          ((seeds ++ extracted ++ inferred).filter fun row => !(pack_artifact_ids none).contains row.artifact_id)
          response n := by
  have hactive : (⟨"v1", 1⟩ : ActiveVersion) ∈ fetch_active_version (repo_database [0, 3]) := by decide +kernel
  have hexpand : expand .plain (repo_database [0, 3]) [] outsider { seed_artifact_ids := [1], budget_tokens := 1000 } =
      .ok (expand_cards .plain (repo_database [0, 3]) 1 outsider { seed_artifact_ids := [1], budget_tokens := 1000 }
        (effective_budget .plain { seed_artifact_ids := [1], budget_tokens := 1000 } none) (pack_artifact_ids none)) := by
    rw [expand, Option.mem_def.1 hactive]
  exact ⟨_, hexpand, expand_exact .plain (repo_database [0, 3]) [] outsider _ hactive hexpand⟩

end AgenticKb.ContextBroker

import AgenticKb.Effects.Invalidation

open AgenticKb.Lib

namespace AgenticKb

/-- The artifacts an edge joins. -/
def KnowledgeEdge.ends (e : KnowledgeEdge) : Uuid × Uuid := (e.from_artifact_id, e.to_artifact_id)

/-- One pass of `_reattach_edges`: a rename, and the column it rewrites. -/
structure Repoint where
  rename : Rename
  from_side : Bool
deriving DecidableEq, Repr

/-- Rename after rename, the `from` column before the `to` column. -/
def repoints (renames : List Rename) : List Repoint :=
  renames.flatMap fun rename => [⟨rename, true⟩, ⟨rename, false⟩]

/-- The pass finds the row: it is live and has the old artifact in the column. -/
def Repoint.finds (pass : Repoint) (e : KnowledgeEdge) : Bool :=
  e.invalidated_at_seq.isNone && e.column pass.from_side == pass.rename.old_artifact_id

/-- The row would become a loop of the new artifact. -/
def Repoint.loops (pass : Repoint) (e : KnowledgeEdge) : Bool :=
  e.column (!pass.from_side) == pass.rename.new_artifact_id

/-- The pairs of artifacts a row stands for, one pass after another. A row that is not live stays where it is, and a
    row that would become a loop goes no further. -/
def KnowledgeEdge.route : List Repoint → KnowledgeEdge → List (Uuid × Uuid)
  | [], e => [e.ends]
  | pass :: passes, e =>
    e.ends ::
      if pass.finds e then
        if pass.loops e then [] else (e.repoint pass.from_side pass.rename.new_artifact_id).route passes
      else e.route passes

/-- Two rows of one edge type share no pair on their routes. -/
def Apart (passes : List Repoint) (e e' : KnowledgeEdge) : Prop :=
  e.edge_type = e'.edge_type → ∀ ends ∈ e.route passes, ends ∉ e'.route passes

instance (passes : List Repoint) : DecidableRel (Apart passes) := fun e e' =>
  inferInstanceAs (Decidable (e.edge_type = e'.edge_type → ∀ ends ∈ e.route passes, ends ∉ e'.route passes))

/-- No two rows of the linker meet, and no two of the judge. -/
def RoutesApart (edges : List KnowledgeEdge) (passes : List Repoint) : Prop :=
  ∀ source ∈ [EdgeSource.linker, EdgeSource.llm_judge],
    (edges.filter fun e => e.source == some source).Pairwise (Apart passes)

instance (edges : List KnowledgeEdge) (passes : List Repoint) : Decidable (RoutesApart edges passes) :=
  inferInstanceAs (Decidable (∀ source ∈ [EdgeSource.linker, EdgeSource.llm_judge],
    (edges.filter fun e => e.source == some source).Pairwise (Apart passes)))

/-- At most one live edge for each endpoint pair and type of a uniquely indexed producer. -/
def OneLiveEdge (edges : List KnowledgeEdge) : Prop :=
  ∀ source ∈ [EdgeSource.linker, EdgeSource.llm_judge],
    ((edges.filter fun e => e.invalidated_at_seq.isNone && e.source == some source).map (·.key)).Nodup

/-- A row that is live was live before, and joins an artifact to itself only if it did before. -/
def NoNewLoop (e e' : KnowledgeEdge) : Prop :=
  e'.Live → e.Live ∧ (e'.from_artifact_id = e'.to_artifact_id → e.from_artifact_id = e.to_artifact_id)

section Rows

variable {n : Nat} {pass : Repoint} {passes : List Repoint} {e e' : KnowledgeEdge} {ends : Uuid × Uuid}

/-- What a pass makes of a row. -/
def Repoint.carry (n : Nat) (pass : Repoint) (e : KnowledgeEdge) : KnowledgeEdge :=
  if pass.finds e then
    if pass.loops e then { e with invalidated_at_seq := some n }
    else e.repoint pass.from_side pass.rename.new_artifact_id
  else e

/-- The column of a pair of artifacts. -/
def column_of (from_side : Bool) (ends : Uuid × Uuid) : Uuid := if from_side then ends.1 else ends.2

theorem column_repoint {from_side side : Bool} {id : Uuid} :
    (e.repoint from_side id).column side = if side = from_side then id else e.column side := by
  cases from_side <;> cases side <;> rfl

theorem repoint_live {from_side : Bool} {id : Uuid} : (e.repoint from_side id).Live ↔ e.Live := by
  cases from_side <;> rfl

theorem repoint_source {from_side : Bool} {id : Uuid} : (e.repoint from_side id).source = e.source := by
  cases from_side <;> rfl

theorem repoint_edge_type {from_side : Bool} {id : Uuid} : (e.repoint from_side id).edge_type = e.edge_type := by
  cases from_side <;> rfl

theorem finds_iff : pass.finds e = true ↔ e.Live ∧ e.column pass.from_side = pass.rename.old_artifact_id := by
  rw [Repoint.finds, Bool.and_eq_true, Option.isNone_iff_eq_none, beq_iff_eq]
  rfl

/-- A pass retires a row, repoints it, or leaves it alone. -/
theorem carry_cases (n : Nat) (pass : Repoint) (e : KnowledgeEdge) :
    (pass.finds e = true ∧ pass.loops e = true ∧ pass.carry n e = { e with invalidated_at_seq := some n }) ∨
    (pass.finds e = true ∧ pass.loops e = false ∧
      pass.carry n e = e.repoint pass.from_side pass.rename.new_artifact_id) ∨
    (pass.finds e = false ∧ pass.carry n e = e) := by
  cases hfinds : pass.finds e with
  | false => exact .inr (.inr ⟨rfl, by simp [Repoint.carry, hfinds]⟩)
  | true =>
    cases hloops : pass.loops e with
    | false => exact .inr (.inl ⟨rfl, rfl, by simp [Repoint.carry, hfinds, hloops]⟩)
    | true => exact .inl ⟨rfl, rfl, by simp [Repoint.carry, hfinds, hloops]⟩

theorem carry_source : (pass.carry n e).source = e.source := by
  obtain ⟨-, -, heq⟩ | ⟨-, -, heq⟩ | ⟨-, heq⟩ := carry_cases n pass e
  · rw [heq]
  · rw [heq, repoint_source]
  · rw [heq]

theorem carry_edge_type : (pass.carry n e).edge_type = e.edge_type := by
  obtain ⟨-, -, heq⟩ | ⟨-, -, heq⟩ | ⟨-, heq⟩ := carry_cases n pass e
  · rw [heq]
  · rw [heq, repoint_edge_type]
  · rw [heq]

/-- Only a repointed row joins another pair than before. -/
theorem ends_carry (h : pass.finds e = true → pass.loops e = true) : (pass.carry n e).ends = e.ends := by
  obtain ⟨-, -, heq⟩ | ⟨hfinds, hloops, -⟩ | ⟨-, heq⟩ := carry_cases n pass e
  · rw [heq]
    rfl
  · rw [h hfinds] at hloops
    cases hloops
  · rw [heq]

theorem NoNewLoop.trans {e'' : KnowledgeEdge} (h : NoNewLoop e e') (h' : NoNewLoop e' e'') : NoNewLoop e e'' := by
  intro hlive
  obtain ⟨hlive', hloop'⟩ := h' hlive
  obtain ⟨hbefore, hloop⟩ := h hlive'
  exact ⟨hbefore, fun heq => hloop (hloop' heq)⟩

theorem noNewLoop_retire (n : Nat) (e : KnowledgeEdge) : NoNewLoop e { e with invalidated_at_seq := some n } := by
  intro hlive
  cases hlive

/-- A pass repoints no row onto the artifact at its other end. -/
theorem noNewLoop_carry : NoNewLoop e (pass.carry n e) := by
  obtain ⟨-, -, heq⟩ | ⟨hfinds, hloops, heq⟩ | ⟨-, heq⟩ := carry_cases n pass e
  · rw [heq]
    exact noNewLoop_retire n e
  · have hother : e.column (!pass.from_side) ≠ pass.rename.new_artifact_id := by
      rw [Repoint.loops, beq_eq_false_iff_ne] at hloops
      exact hloops
    rw [heq]
    intro _
    refine ⟨(finds_iff.mp hfinds).1, ?_⟩
    intro hloop
    cases hside : pass.from_side with
    | true =>
      rw [hside] at hloop hother
      exact absurd hloop.symm hother
    | false =>
      rw [hside] at hloop hother
      exact absurd hloop hother
  · rw [heq]
    exact fun hlive => ⟨hlive, id⟩

/-- A live row does not have the old artifact in the column of a pass it has been through. -/
theorem column_carry_ne (hnew : pass.rename.new_artifact_id ≠ pass.rename.old_artifact_id)
    (hlive : (pass.carry n e).Live) : (pass.carry n e).column pass.from_side ≠ pass.rename.old_artifact_id := by
  obtain ⟨-, -, heq⟩ | ⟨-, -, heq⟩ | ⟨hfinds, heq⟩ := carry_cases n pass e
  · rw [heq] at hlive
    exact absurd hlive (by simp [Lifespan.Live])
  · rw [heq, column_repoint, if_pos rfl]
    exact hnew
  · intro hold
    rw [heq] at hlive hold
    rw [finds_iff.mpr ⟨hlive, hold⟩] at hfinds
    cases hfinds

theorem ends_mem_route : e.ends ∈ e.route passes := by
  cases passes with
  | nil => exact List.mem_cons_self
  | cons pass passes => exact List.mem_cons_self

theorem mem_route_of_not_live (hdead : ¬ e.Live) : ends ∈ e.route passes ↔ ends = e.ends := by
  induction passes with
  | nil => exact List.mem_singleton
  | cons pass passes ih =>
    have hfinds : ¬ pass.finds e = true := fun h => hdead (finds_iff.mp h).1
    rw [KnowledgeEdge.route, if_neg hfinds, List.mem_cons, ih, or_self]

/-- A route goes on from where the pass has put the row. -/
theorem mem_route_cons (n : Nat) :
    ends ∈ e.route (pass :: passes) ↔ ends = e.ends ∨ ends ∈ (pass.carry n e).route passes := by
  rw [KnowledgeEdge.route, List.mem_cons]
  obtain ⟨hfinds, hloops, heq⟩ | ⟨hfinds, hloops, heq⟩ | ⟨hfinds, heq⟩ := carry_cases n pass e
  · have hdead : ¬ (pass.carry n e).Live := by
      rw [heq]
      simp [Lifespan.Live]
    have hends : (pass.carry n e).ends = e.ends := ends_carry fun _ => hloops
    rw [if_pos hfinds, if_pos hloops, mem_route_of_not_live hdead, hends]
    simp
  · rw [if_pos hfinds, if_neg (by simp [hloops]), heq]
  · rw [if_neg (by simp [hfinds]), heq]

/-- Where no later pass brings an artifact back, a route that has left it does not return to it. -/
theorem column_ne_of_mem_route {from_side : Bool} {id : Uuid}
    (hnew : ∀ pass ∈ passes, pass.rename.new_artifact_id ≠ id) (hcolumn : e.column from_side ≠ id)
    (h : ends ∈ e.route passes) : column_of from_side ends ≠ id := by
  induction passes generalizing e with
  | nil =>
    rw [List.mem_singleton.mp h]
    exact hcolumn
  | cons pass passes ih =>
    have hrest : ∀ pass ∈ passes, pass.rename.new_artifact_id ≠ id := fun other hother =>
      hnew other (List.mem_cons_of_mem _ hother)
    have hcarried : (pass.carry 0 e).column from_side ≠ id := by
      obtain ⟨-, -, heq⟩ | ⟨-, -, heq⟩ | ⟨-, heq⟩ := carry_cases 0 pass e
      · rw [heq]
        exact hcolumn
      · rw [heq, column_repoint]
        by_cases hside : from_side = pass.from_side
        · rw [if_pos hside]
          exact hnew pass List.mem_cons_self
        · rw [if_neg hside]
          exact hcolumn
      · rw [heq]
        exact hcolumn
    cases (mem_route_cons 0).mp h with
    | inl hhere =>
      rw [hhere]
      exact hcolumn
    | inr hlater => exact ih hrest hcarried hlater

/-- Where one row stands before a pass, another that stands elsewhere does not come later, unless the first one is
    still there. -/
theorem meets_after_pass (hnew : ∀ other ∈ pass :: passes, other.rename.new_artifact_id ≠ pass.rename.old_artifact_id)
    (happart : e.ends ≠ e'.ends) (hmeet : e.ends ∈ (pass.carry n e').route passes) :
    e.ends ∈ (pass.carry n e).route passes := by
  have hself : (pass.carry n e).ends = e.ends → e.ends ∈ (pass.carry n e).route passes := by
    intro hends
    rw [← hends]
    exact ends_mem_route
  by_cases hmoves : pass.finds e = true → pass.loops e = true
  · exact hself (ends_carry hmoves)
  · obtain ⟨hfinds, -⟩ := Classical.not_imp.mp hmoves
    have hcolumn : column_of pass.from_side e.ends = pass.rename.old_artifact_id := (finds_iff.mp hfinds).2
    by_cases hlive : (pass.carry n e').Live
    · have haway := column_carry_ne (hnew pass List.mem_cons_self) hlive
      have hnever := column_ne_of_mem_route (fun other hother => hnew other (List.mem_cons_of_mem _ hother)) haway hmeet
      exact absurd hcolumn hnever
    · have hthere := (mem_route_of_not_live hlive).mp hmeet
      have hstays : pass.finds e' = true → pass.loops e' = true := by
        intro hfinds'
        obtain ⟨-, hloops, -⟩ | ⟨-, -, heq⟩ | ⟨hnot, -⟩ := carry_cases n pass e'
        · exact hloops
        · rw [heq, repoint_live] at hlive
          exact absurd (finds_iff.mp hfinds').1 hlive
        · rw [hnot] at hfinds'
          cases hfinds'
      exact absurd (hthere.trans (ends_carry hstays)) happart

/-- Two rows that stand apart before a pass meet at all exactly when they meet after it. -/
theorem apart_cons_iff (hnew : ∀ other ∈ pass :: passes, other.rename.new_artifact_id ≠ pass.rename.old_artifact_id)
    (happart : e.ends ≠ e'.ends) :
    (∀ ends ∈ e.route (pass :: passes), ends ∉ e'.route (pass :: passes)) ↔
      ∀ ends ∈ (pass.carry n e).route passes, ends ∉ (pass.carry n e').route passes := by
  constructor
  · intro h ends hends hends'
    exact h ends ((mem_route_cons n).mpr (.inr hends)) ((mem_route_cons n).mpr (.inr hends'))
  · intro h ends hends hends'
    cases (mem_route_cons n).mp hends with
    | inl hhere =>
      cases (mem_route_cons n).mp hends' with
      | inl hhere' => exact happart (hhere.symm.trans hhere')
      | inr hlater' =>
        subst hhere
        exact h _ (meets_after_pass hnew happart hlater') hlater'
    | inr hlater =>
      cases (mem_route_cons n).mp hends' with
      | inl hhere' =>
        subst hhere'
        exact h _ hlater (meets_after_pass hnew happart.symm hlater)
      | inr hlater' => exact h _ hlater hlater'

end Rows

section Tables

variable {n : Nat} {pass : Repoint} {passes : List Repoint} {edges edges' : List KnowledgeEdge}

/-- The passes over the edge table; each fails on a row that another of its unique index stands for. -/
def run_repoints (n : Nat) (passes : List Repoint) (edges : List KnowledgeEdge) : Option (List KnowledgeEdge) :=
  passes.foldlM (fun edges pass =>
    if unique_links (edges.map (pass.carry n)) then some (edges.map (pass.carry n)) else none) edges

/-- The row after all the passes. -/
def carry_all (n : Nat) (passes : List Repoint) (e : KnowledgeEdge) : KnowledgeEdge :=
  passes.foldl (fun e pass => pass.carry n e) e

theorem routesApart_nil_iff : RoutesApart edges [] ↔ unique_links edges = true := by
  simp only [RoutesApart, unique_links, List.all_eq_true, decide_eq_true_eq, List.Nodup, List.pairwise_map]
  apply forall_congr'
  intro source
  apply imp_congr_right
  intro _
  have hpair : ∀ e e' : KnowledgeEdge,
      (e.edge_type = e'.edge_type → ∀ ends ∈ e.route [], ends ∉ e'.route []) ↔ e.key ≠ e'.key := by
    intro e e'
    simp only [KnowledgeEdge.route, List.mem_singleton, forall_eq, KnowledgeEdge.ends, KnowledgeEdge.key, ne_eq,
      Prod.mk.injEq]
    tauto
  constructor
  · exact List.Pairwise.imp fun h => (hpair _ _).mp h
  · exact List.Pairwise.imp fun h => (hpair _ _).mpr h

theorem RoutesApart.unique (h : RoutesApart edges passes) : unique_links edges = true := by
  apply routesApart_nil_iff.mp
  intro source hsource
  refine (h source hsource).imp ?_
  intro e e' happart htype ends hends hends'
  rw [KnowledgeEdge.route, List.mem_singleton] at hends hends'
  exact happart htype ends (hends ▸ ends_mem_route) (hends' ▸ ends_mem_route)

theorem routesApart_cons_iff (hnew : ∀ other ∈ pass :: passes, other.rename.new_artifact_id ≠ pass.rename.old_artifact_id)
    (hunique : unique_links edges = true) :
    RoutesApart edges (pass :: passes) ↔ RoutesApart (edges.map (pass.carry n)) passes := by
  have hapart := routesApart_nil_iff.mpr hunique
  apply forall_congr'
  intro source
  apply imp_congr_right
  intro hsource
  have hfilter : ((edges.map (pass.carry n)).filter fun e => e.source == some source) =
      (edges.filter fun e => e.source == some source).map (pass.carry n) := by
    rw [List.filter_map]
    congr 1
    apply List.filter_congr
    intro e _
    rw [Function.comp_apply, carry_source]
  rw [hfilter, List.pairwise_map]
  constructor
  · intro h
    refine (h.and (hapart source hsource)).imp ?_
    intro e e' hboth htype
    rw [carry_edge_type, carry_edge_type] at htype
    have hne : e.ends ≠ e'.ends := fun heq =>
      hboth.2 htype e.ends ends_mem_route (heq ▸ ends_mem_route)
    exact (apart_cons_iff hnew hne).mp (hboth.1 htype)
  · intro h
    refine (h.and (hapart source hsource)).imp ?_
    intro e e' hboth htype
    have hne : e.ends ≠ e'.ends := fun heq =>
      hboth.2 htype e.ends ends_mem_route (heq ▸ ends_mem_route)
    exact (apart_cons_iff hnew hne).mpr (hboth.1 (by rw [carry_edge_type, carry_edge_type]; exact htype))

/-- The passes go through exactly when the routes stay apart; each row is then where its passes have carried it. -/
theorem run_repoints_iff (hnew : ∀ pass ∈ passes, ∀ other ∈ passes,
      other.rename.new_artifact_id ≠ pass.rename.old_artifact_id) (hunique : unique_links edges = true) :
    run_repoints n passes edges = some edges' ↔
      RoutesApart edges passes ∧ edges' = edges.map (carry_all n passes) := by
  induction passes generalizing edges with
  | nil =>
    have hsame : edges.map (carry_all n []) = edges := List.map_id _
    simp only [run_repoints, List.foldlM_nil, Option.pure_def, Option.some.injEq, routesApart_nil_iff, hunique,
      true_and, hsame]
    exact eq_comm
  | cons pass passes ih =>
    have hrest : ∀ pass ∈ passes, ∀ other ∈ passes, other.rename.new_artifact_id ≠ pass.rename.old_artifact_id :=
      fun pass hpass other hother => hnew pass (List.mem_cons_of_mem _ hpass) other (List.mem_cons_of_mem _ hother)
    have hstep := routesApart_cons_iff (n := n) (hnew pass List.mem_cons_self) hunique
    have hcarried : edges.map (carry_all n (pass :: passes)) = (edges.map (pass.carry n)).map (carry_all n passes) := by
      rw [List.map_map]
      rfl
    have hrun : run_repoints n (pass :: passes) edges =
        if unique_links (edges.map (pass.carry n)) then run_repoints n passes (edges.map (pass.carry n)) else none := by
      by_cases hpass : unique_links (edges.map (pass.carry n)) = true
      · simp only [run_repoints, List.foldlM_cons, if_pos hpass, Option.bind_eq_bind, Option.bind_some]
      · simp only [run_repoints, List.foldlM_cons, if_neg hpass, Option.bind_eq_bind, Option.bind_none]
    rw [hrun, hstep, hcarried]
    by_cases hpass : unique_links (edges.map (pass.carry n)) = true
    · rw [if_pos hpass, ih hrest hpass]
    · rw [if_neg hpass]
      constructor
      · intro h
        cases h
      · intro h
        exact absurd h.1.unique hpass

theorem reattach_side_eq (r : Registry) (rename : Rename) (from_side : Bool) :
    (reattach_side rename.old_artifact_id rename.new_artifact_id n r from_side).map (·.edges) =
      run_repoints n [⟨rename, from_side⟩] r.edges := by
  have hcolumns : ∀ e : KnowledgeEdge,
      (if from_side then e.from_artifact_id else e.to_artifact_id) = e.column from_side ∧
      (if from_side then e.to_artifact_id else e.from_artifact_id) = e.column (!from_side) := by
    intro e
    cases from_side <;> exact ⟨rfl, rfl⟩
  have hedges : update_where (retire_edges r n fun e =>
        e.column from_side == rename.old_artifact_id && e.column (!from_side) == rename.new_artifact_id).edges
      (fun e => e.invalidated_at_seq.isNone && e.column from_side == rename.old_artifact_id &&
        e.column (!from_side) != rename.new_artifact_id)
      (·.repoint from_side rename.new_artifact_id) = r.edges.map (Repoint.carry n ⟨rename, from_side⟩) := by
    rw [retire_edges, update_where, update_where, List.map_map]
    apply List.map_congr_left
    intro e _
    simp only [Function.comp_apply, Repoint.carry, Repoint.finds, Repoint.loops, bne]
    obtain hlive | hlive := Bool.eq_false_or_eq_true e.invalidated_at_seq.isNone
    · obtain hcolumn | hcolumn := Bool.eq_false_or_eq_true (e.column from_side == rename.old_artifact_id)
      · obtain hother | hother := Bool.eq_false_or_eq_true (e.column (!from_side) == rename.new_artifact_id)
        · simp only [hlive, hcolumn, hother, Bool.and_true, if_true]
          rfl
        · simp only [hlive, hcolumn, hother, Bool.and_true, Bool.and_false, Bool.false_eq_true, Bool.not_false, if_false,
            if_true]
      · simp only [hcolumn, Bool.false_and, Bool.and_false, Bool.false_eq_true, if_false]
    · simp only [hlive, Bool.false_and, Bool.false_eq_true, if_false]
  simp only [reattach_side, hcolumns, hedges, run_repoints, List.foldlM_cons, List.foldlM_nil, Option.pure_def,
    Option.bind_eq_bind]
  split
  · rfl
  · rfl

theorem run_repoints_append {passes' : List Repoint} :
    run_repoints n (passes ++ passes') edges = (run_repoints n passes edges).bind (run_repoints n passes') := by
  rw [run_repoints, List.foldlM_append]
  rfl

theorem apply_rename_edges (r : Registry) (rename : Rename) :
    (apply_rename n r rename).map (·.edges) = run_repoints n (repoints [rename]) r.edges := by
  have hsides : repoints [rename] = [⟨rename, true⟩] ++ [⟨rename, false⟩] := rfl
  set linked : Registry := { r with
    artifacts := update_where r.artifacts (fun a => a.artifact_id == rename.new_artifact_id) fun a =>
      { a with prior_identity_id := some rename.old_artifact_id } } with hlinked
  have hfrom := reattach_side_eq (n := n) linked rename true
  rw [hsides, run_repoints_append, ← show linked.edges = r.edges from rfl, ← hfrom]
  simp only [apply_rename, reattach_edges, List.foldlM_cons, List.foldlM_nil, Option.bind_eq_bind, Option.pure_def,
    ← hlinked]
  cases hmid : reattach_side rename.old_artifact_id rename.new_artifact_id n linked true with
  | none => rfl
  | some mid =>
    have hto := reattach_side_eq (n := n) mid rename false
    rw [Option.bind_some, Option.map_some, show (some mid.edges).bind (run_repoints n [⟨rename, false⟩]) = _ from hto.symm]
    cases reattach_side rename.old_artifact_id rename.new_artifact_id n mid false with
    | none => rfl
    | some mid => rfl

theorem apply_renames_edges (renames : List Rename) (r : Registry) :
    (renames.foldlM (apply_rename n) r).map (·.edges) = run_repoints n (repoints renames) r.edges := by
  induction renames generalizing r with
  | nil => rfl
  | cons rename renames ih =>
    have hsplit : repoints (rename :: renames) = repoints [rename] ++ repoints renames := rfl
    rw [hsplit, run_repoints_append, ← apply_rename_edges, List.foldlM_cons, Option.bind_eq_bind]
    cases apply_rename n r rename with
    | none => rfl
    | some mid => exact ih mid

theorem noNewLoop_carry_all (n : Nat) (passes : List Repoint) (e : KnowledgeEdge) :
    NoNewLoop e (carry_all n passes e) := by
  induction passes generalizing e with
  | nil => exact fun hlive => ⟨hlive, id⟩
  | cons pass passes ih => exact noNewLoop_carry.trans (ih (pass.carry n e))

/-- Of a table its unique indexes hold for, the live part has no two edges of one key. -/
theorem oneLiveEdge_of_unique (h : unique_links edges = true) : OneLiveEdge edges := by
  intro source hsource
  simp only [unique_links, List.all_eq_true, decide_eq_true_eq] at h
  refine List.Nodup.sublist (List.Sublist.map _ ?_) (h source hsource)
  apply List.monotone_filter_right
  intro e he
  rw [Bool.and_eq_true] at he
  exact he.2

theorem unique_of_run_repoints (hunique : unique_links edges = true) (h : run_repoints n passes edges = some edges') :
    unique_links edges' = true := by
  refine foldlM_invariant (I := fun edges => unique_links edges = true) ?_ hunique h
  intro mid pass mid' _ _ hstep
  rw [Option.ite_none_right_eq_some, Option.some.injEq] at hstep
  exact hstep.2 ▸ hstep.1

/-- The indexes do not look at `invalidated_at_seq`, so retiring rows keeps them. -/
theorem unique_retire_edges {r : Registry} {stale : KnowledgeEdge → Bool} (hunique : unique_links r.edges = true) :
    unique_links (retire_edges r n stale).edges = true := by
  simp only [unique_links, List.all_eq_true, decide_eq_true_eq] at hunique ⊢
  intro source hsource
  have hrows : ((retire_edges r n stale).edges.filter fun e => e.source == some source).map (·.key) =
      (r.edges.filter fun e => e.source == some source).map (·.key) := by
    rw [retire_edges, update_where, List.filter_map, List.map_map]
    have hfilter : (r.edges.filter ((fun e : KnowledgeEdge => e.source == some source) ∘ fun e =>
        if e.invalidated_at_seq.isNone && stale e then { e with invalidated_at_seq := some n } else e)) =
        r.edges.filter fun e => e.source == some source := by
      apply List.filter_congr
      intro e _
      rw [Function.comp_apply]
      split
      · rfl
      · rfl
    rw [hfilter]
    apply List.map_congr_left
    intro e _
    rw [Function.comp_apply]
    split
    · rfl
    · rfl
  rw [hrows]
  exact hunique source hsource

/-- A run of passes and sweeps over the table, row by row. -/
def Settles (edges edges' : List KnowledgeEdge) : Prop :=
  ∃ f, edges' = edges.map f ∧ ∀ e ∈ edges, NoNewLoop e (f e)

theorem Settles.trans {edges'' : List KnowledgeEdge} (h : Settles edges edges') (h' : Settles edges' edges'') :
    Settles edges edges'' := by
  obtain ⟨f, rfl, hf⟩ := h
  obtain ⟨g, rfl, hg⟩ := h'
  refine ⟨g ∘ f, List.map_map, ?_⟩
  intro e he
  exact (hf e he).trans (hg (f e) (List.mem_map_of_mem he))

theorem settles_retire_edges (r : Registry) (n : Nat) (stale : KnowledgeEdge → Bool) :
    Settles r.edges (retire_edges r n stale).edges := by
  refine ⟨_, rfl, ?_⟩
  intro e _
  split
  · exact noNewLoop_retire n e
  · exact fun hlive => ⟨hlive, id⟩

theorem Settles.forall₂ (h : Settles edges edges') : List.Forall₂ NoNewLoop edges edges' := by
  obtain ⟨f, rfl, hf⟩ := h
  rw [List.forall₂_map_right_iff, List.forall₂_same]
  exact hf

end Tables

section Pass

variable {r r' : Registry} {n : Nat} {seen changed : List Uuid} {started_at : Timestamp}

/-- The renames the invalidation pass detects. -/
def pass_renames (r : Registry) (n : Nat) (seen : List Uuid) (started_at : Timestamp) : List Rename :=
  detected_renames r (vanished_live_sources r seen started_at) n

/-- An old artifact's source has vanished and a new one's has not, so no rename leads to an artifact that another
    leads away from. -/
theorem renames_apart (hids : (r.artifacts.map (·.artifact_id)).Nodup) {pass other : Repoint}
    (hpass : pass ∈ repoints (pass_renames r n seen started_at))
    (hother : other ∈ repoints (pass_renames r n seen started_at)) :
    other.rename.new_artifact_id ≠ pass.rename.old_artifact_id := by
  have hmem : ∀ pass ∈ repoints (pass_renames r n seen started_at), pass.rename ∈ pass_renames r n seen started_at := by
    intro pass hpass
    obtain ⟨rename, hrename, hin⟩ := List.mem_flatMap.mp hpass
    simp only [List.mem_cons, List.not_mem_nil, or_false] at hin
    cases hin with
    | inl hfrom => exact hfrom ▸ hrename
    | inr hto => exact hto ▸ hrename
  have hold := isRename_of_mem (hmem pass hpass)
  have hnew := isRename_of_mem (hmem other hother)
  obtain ⟨a, ha, -, haid, hasource⟩ := hold.old
  obtain ⟨b, hb, -, hbid, hbsource⟩ := hnew.new
  intro heq
  have hsame : b = a := List.inj_on_of_nodup_map hids hb ha (by rw [hbid, haid, heq])
  apply hbsource
  rw [hsame, hasource]
  exact hold.vanished

/-- The pass fails in the reattachment or not at all. -/
theorem run_invalidation_pass_edges :
    (∃ r', run_invalidation_pass r n seen changed started_at = some r') ↔
      ∃ edges, run_repoints n (repoints (pass_renames r n seen started_at)) r.edges = some edges := by
  rw [← apply_renames_edges, pass_renames, run_invalidation_pass]
  cases (detected_renames r (vanished_live_sources r seen started_at) n).foldlM (apply_rename n) r with
  | none => simp
  | some mid => simp

/-- After the pass the producers' keys are unique among the live edges, and no repointed edge is a loop. -/
theorem run_invalidation_pass_clean (hids : (r.artifacts.map (·.artifact_id)).Nodup)
    (hunique : unique_links r.edges = true) (h : run_invalidation_pass r n seen changed started_at = some r') :
    OneLiveEdge r'.edges ∧ List.Forall₂ NoNewLoop r.edges r'.edges := by
  simp only [run_invalidation_pass, Option.bind_eq_bind, Option.bind_eq_some_iff, Option.some.injEq] at h
  obtain ⟨mid, hmid, rfl⟩ := h
  have hpasses : run_repoints n (repoints (pass_renames r n seen started_at)) r.edges = some mid.edges := by
    rw [← apply_renames_edges, pass_renames, hmid]
    rfl
  obtain ⟨-, hedges⟩ := (run_repoints_iff (fun _ hpass _ hother => renames_apart hids hpass hother) hunique).mp hpasses
  have hcarried : Settles r.edges mid.edges := ⟨_, hedges, fun e _ => noNewLoop_carry_all _ _ e⟩
  have hmidunique := unique_of_run_repoints hunique hpasses
  set swept := deletion_sweep mid n _ with hswept
  have hdeleted : unique_links swept.edges = true := unique_retire_edges hmidunique
  have hdeletion : Settles mid.edges swept.edges := settles_retire_edges _ _ _
  obtain ⟨artifacts, hprop, -⟩ := propagate_acl_spec (supersession_sweep swept n changed) seen
  rw [hprop]
  refine ⟨oneLiveEdge_of_unique (unique_retire_edges hdeleted), ?_⟩
  exact (hcarried.trans (hdeletion.trans (settles_retire_edges _ _ _))).forall₂

/-- The invalidation pass goes through, with no link doubled and no loop made, exactly when no two links of one
    producer and type meet on the way from the vanished artifacts to their successors. -/
theorem reattachment_clean_iff (r : Registry) (n : Nat) (seen changed : List Uuid) (started_at : Timestamp)
    (hids : (r.artifacts.map (·.artifact_id)).Nodup) (hunique : unique_links r.edges = true) :
    (∃ r', run_invalidation_pass r n seen changed started_at = some r' ∧
      OneLiveEdge r'.edges ∧ List.Forall₂ NoNewLoop r.edges r'.edges) ↔
      RoutesApart r.edges (repoints (pass_renames r n seen started_at)) := by
  have hapart : (∃ edges, run_repoints n (repoints (pass_renames r n seen started_at)) r.edges = some edges) ↔
      RoutesApart r.edges (repoints (pass_renames r n seen started_at)) := by
    simp only [run_repoints_iff (fun _ hpass _ hother => renames_apart hids hpass hother) hunique, exists_and_left,
      exists_eq, and_true]
  have hpass : (∃ r', run_invalidation_pass r n seen changed started_at = some r') ↔
      ∃ edges, run_repoints n (repoints (pass_renames r n seen started_at)) r.edges = some edges :=
    run_invalidation_pass_edges
  rw [← hapart, ← hpass]
  constructor
  · rintro ⟨r', hrun, -⟩
    exact ⟨r', hrun⟩
  · rintro ⟨r', hrun⟩
    exact ⟨r', hrun, run_invalidation_pass_clean hids hunique hrun⟩

end Pass

/-- A symbol and where it stands: its file's source, and the build that introduced it. -/
def placed_symbol (id source_id build_seq : Nat) : KnowledgeArtifact :=
  { artifact_id := id, artifact_type := .code_symbol, source_id, title := some "charge_order"
    body_text := some (.text "def charge_order(): ..."), content_hash := some "def charge_order(): ..."
    kb_version := "v", knowledge_kind := some .source_backed, acl_teams := [], created_at := 0
    valid_from_seq := build_seq }

def placed_source (id : Nat) (path : String) (last_seen_at : Timestamp) : SourceItem :=
  { source_id := id, source_type := .github_code, source_uri := path, source_version := "1", repo := some "shop"
    branch := none, path := some path, external_id := none, content_hash := path
    last_seen_at := some last_seen_at, acl_teams := [], is_deleted := false, created_at := 0 }

/-- The linker's link from the page that names the symbol. -/
def mention (id target build_seq : Nat) : KnowledgeEdge :=
  { edge_id := id, from_artifact_id := 9, to_artifact_id := target, edge_type := .mentions, confidence := some (9 / 10)
    source := some .linker, kb_version := "v", valid_from_seq := build_seq, trust_class := .EXTRACTED
    evidence := .json_null }

/-- A file moved in build 2: its one symbol is live at the old path and at the new one, and a page names it. -/
def moved_file (edges : List KnowledgeEdge) : Registry :=
  { source_items := [placed_source 1 "pay.py" 1, placed_source 2 "billing/pay.py" 8, placed_source 3 "guide.md" 8]
    artifacts := [placed_symbol 10 1 1, placed_symbol 20 2 2,
      { placed_symbol 9 3 1 with artifact_type := .summary, content_hash := some "guide" }]
    edges, build_seq := 2 }

/-- The page's link follows the symbol. -/
theorem reattachment_clean_moved :
    ∃ r', run_invalidation_pass (moved_file [mention 1 10 1]) 2 [2, 3] [2] 5 = some r' ∧
      OneLiveEdge r'.edges ∧ List.Forall₂ NoNewLoop (moved_file [mention 1 10 1]).edges r'.edges :=
  (reattachment_clean_iff (moved_file [mention 1 10 1]) 2 [2, 3] [2] 5 (by decide) (by decide)).mpr (by decide +kernel)

/-- The linker has matched the page with the symbol at both paths, and the repointed link is the other one again. -/
theorem reattachment_doubled_mention :
    ((moved_file [mention 1 10 1, mention 2 20 2]).artifacts.map (·.artifact_id)).Nodup ∧
    unique_links (moved_file [mention 1 10 1, mention 2 20 2]).edges = true ∧
    ¬ ∃ r', run_invalidation_pass (moved_file [mention 1 10 1, mention 2 20 2]) 2 [2, 3] [2] 5 = some r' ∧
      OneLiveEdge r'.edges ∧
      List.Forall₂ NoNewLoop (moved_file [mention 1 10 1, mention 2 20 2]).edges r'.edges := by
  have hfails : run_invalidation_pass (moved_file [mention 1 10 1, mention 2 20 2]) 2 [2, 3] [2] 5 = none := by
    decide +kernel
  refine ⟨by decide, by decide, ?_⟩
  rintro ⟨r', hrun, -⟩
  rw [hfails] at hrun
  cases hrun

end AgenticKb

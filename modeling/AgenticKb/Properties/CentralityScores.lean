import Mathlib.Algebra.Order.BigOperators.Group.List
import Mathlib.Tactic.FieldSimp
import Mathlib.Tactic.Linarith
import AgenticKb.Application.Centrality
import AgenticKb.Lib.Ranking

open AgenticKb.Lib

namespace AgenticKb

/-- Ranks of the nodes that are all positive and sum to 1. -/
structure Ranked (node_list : List String) (rank : Dict String ℚ) : Prop where
  keys : rank.map (·.1) = node_list
  positive : ∀ u ∈ node_list, 0 < rank.amount u
  sum : rank.total = 1

section Step

variable {node_list : List String} {out : Dict String (List String)} {rank nxt : Dict String ℚ}

theorem divide_of_ne_zero {a b : ℚ} (h : b ≠ 0) : divide a b = some (a / b) := if_neg h

/-- What one node passes on. -/
def passed_on (out : Dict String (List String)) (rank : Dict String ℚ) (u : String) : ℚ :=
  if (outs out u).isEmpty then 0 else DAMPING * rank.amount u

/-- Shares raise ranks and no rank falls. -/
theorem amount_foldl_add {share low : ℚ} (hshare : 0 ≤ share) (vs : List String)
    (hlow : ∀ v ∈ node_list, low ≤ nxt.amount v) :
    ∀ v ∈ node_list, low ≤ (vs.foldl (fun (nxt : Dict String ℚ) v => nxt.add v share) nxt).amount v := by
  induction vs generalizing nxt with
  | nil => exact hlow
  | cons w vs ih =>
    apply ih
    intro v hv
    rw [Dict.amount_add]
    split
    · rename_i heq
      have hw := hlow v hv
      rw [heq] at hw
      linarith
    · exact hlow v hv

theorem spread_spec {low : ℚ} {u : String} (hnodup : node_list.Nodup) (hinner : ∀ u, ∀ v ∈ outs out u, v ∈ node_list)
    (hrank : 0 ≤ rank.amount u) (hkeys : nxt.map (·.1) = node_list) (hlow : ∀ v ∈ node_list, low ≤ nxt.amount v) :
    ∃ nxt', spread out rank nxt u = some nxt' ∧ nxt'.map (·.1) = node_list ∧
      (∀ v ∈ node_list, low ≤ nxt'.amount v) ∧ nxt'.total = nxt.total + passed_on out rank u := by
  unfold spread passed_on
  split
  · exact ⟨nxt, rfl, hkeys, hlow, (add_zero _).symm⟩
  · rename_i hsome
    have hlength : ((outs out u).length : ℚ) ≠ 0 := by
      rw [Nat.cast_ne_zero]
      simpa using hsome
    have hshare : 0 ≤ DAMPING * rank.amount u / (outs out u).length := by
      apply div_nonneg (mul_nonneg _ hrank) (Nat.cast_nonneg _)
      norm_num [DAMPING]
    obtain ⟨hsame, htotal⟩ := Dict.total_foldl_add (d := nxt) (x := DAMPING * rank.amount u / (outs out u).length)
      (by rwa [hkeys]) (by rw [hkeys]; exact hinner u)
    refine ⟨_, by rw [divide_of_ne_zero hlength]; rfl, hsame.trans hkeys, amount_foldl_add hshare _ hlow, ?_⟩
    rw [htotal, nsmul_eq_mul, mul_div_cancel₀ _ hlength]

theorem foldlM_spread {low : ℚ} (hnodup : node_list.Nodup) (hinner : ∀ u, ∀ v ∈ outs out u, v ∈ node_list)
    (us : List String) (hrank : ∀ u ∈ us, 0 ≤ rank.amount u) (hkeys : nxt.map (·.1) = node_list)
    (hlow : ∀ v ∈ node_list, low ≤ nxt.amount v) :
    ∃ nxt', us.foldlM (spread out rank) nxt = some nxt' ∧ nxt'.map (·.1) = node_list ∧
      (∀ v ∈ node_list, low ≤ nxt'.amount v) ∧ nxt'.total = nxt.total + (us.map (passed_on out rank)).sum := by
  induction us generalizing nxt with
  | nil => exact ⟨nxt, rfl, hkeys, hlow, by simp⟩
  | cons u us ih =>
    rw [List.forall_mem_cons] at hrank
    obtain ⟨middle, hspread, hkeys, hlow, htotal⟩ := spread_spec hnodup hinner hrank.1 hkeys hlow
    obtain ⟨nxt', hrest, hkeys, hlow, htotal'⟩ := ih hrank.2 hkeys hlow
    refine ⟨nxt', ?_, hkeys, hlow, ?_⟩
    · rw [List.foldlM_cons, hspread]
      exact hrest
    · rw [htotal', htotal, List.map_cons, List.sum_cons, add_assoc]

/-- Damped, the mass that is passed on and the mass that dangles are all of it. -/
theorem sum_passed_on (us : List String) :
    DAMPING * ((us.filter fun u => (outs out u).isEmpty).map rank.amount).sum + (us.map (passed_on out rank)).sum =
      DAMPING * (us.map rank.amount).sum := by
  induction us with
  | nil => simp
  | cons u us ih =>
    rw [List.map_cons, List.sum_cons, List.map_cons, List.sum_cons, passed_on]
    by_cases hempty : (outs out u).isEmpty = true
    · rw [List.filter_cons_of_pos (p := fun u => (outs out u).isEmpty) hempty, List.map_cons, List.sum_cons, if_pos hempty]
      linarith
    · rw [List.filter_cons_of_neg (p := fun u => (outs out u).isEmpty) hempty, if_neg hempty]
      linarith

/-- One iteration divides by nothing that is zero and keeps the ranks positive and their sum 1. -/
theorem pagerank_step_ranked {teleport : ℚ} (hnodup : node_list.Nodup) (hinner : ∀ u, ∀ v ∈ outs out u, v ∈ node_list)
    (hsome : node_list ≠ []) (hteleport : teleport = (1 - DAMPING) / node_list.length) (hrank : Ranked node_list rank) :
    ∃ nxt, pagerank_step node_list out teleport rank = some nxt ∧ Ranked node_list nxt := by
  have hlength : (0 : ℚ) < node_list.length := by
    rw [Nat.cast_pos]
    exact List.length_pos_of_ne_nil hsome
  have hdamping : 0 < DAMPING ∧ DAMPING < 1 := by norm_num [DAMPING]
  have hnonneg : ∀ u ∈ node_list, 0 ≤ rank.amount u := fun u hu => (hrank.positive u hu).le
  obtain ⟨dangling, hdangling⟩ : ∃ dangling, dangling = ((node_list.filter fun u => (outs out u).isEmpty).map rank.amount).sum :=
    ⟨_, rfl⟩
  have hmass : 0 ≤ dangling := by
    rw [hdangling]
    apply List.sum_nonneg
    intro x hx
    obtain ⟨u, hu, rfl⟩ := List.mem_map.1 hx
    exact hnonneg u (List.mem_of_mem_filter hu)
  have hlow : ∀ v ∈ node_list, teleport ≤
      Dict.amount (node_list.map fun u => (u, teleport + DAMPING * dangling / node_list.length)) v := by
    intro v hv
    rw [Dict.amount_map (f := fun _ => teleport + DAMPING * dangling / node_list.length) hv]
    have := div_nonneg (mul_nonneg hdamping.1.le hmass) hlength.le
    linarith
  obtain ⟨nxt, hfold, hkeys, hlow, htotal⟩ := foldlM_spread hnodup hinner node_list hnonneg Dict.keys_map hlow
  have hstep : pagerank_step node_list out teleport rank = some nxt := by
    rw [pagerank_step, ← hdangling, divide_of_ne_zero hlength.ne']
    exact hfold
  refine ⟨nxt, hstep, hkeys, ?_, ?_⟩
  · intro u hu
    have hpositive : 0 < teleport := by
      rw [hteleport]
      exact div_pos (by linarith [hdamping.2]) hlength
    exact hpositive.trans_le (hlow u hu)
  · have hstart : Dict.total (node_list.map fun u => (u, teleport + DAMPING * dangling / node_list.length)) =
        1 - DAMPING + DAMPING * dangling := by
      rw [Dict.total, List.map_map, hteleport]
      simp only [Function.comp_def, List.map_const', List.sum_replicate, nsmul_eq_mul]
      field_simp
    have hwhole : (node_list.map rank.amount).sum = 1 := by
      rw [← hrank.sum, ← Dict.sum_amount (by rwa [hrank.keys]), hrank.keys]
    have hpassed := @sum_passed_on out rank node_list
    rw [← hdangling, hwhole] at hpassed
    rw [htotal, hstart]
    linarith

theorem initial_rank_ranked (hsome : node_list ≠ []) :
    ∃ rank, initial_rank node_list = some rank ∧ Ranked node_list rank := by
  have hlength : (0 : ℚ) < node_list.length := by
    rw [Nat.cast_pos]
    exact List.length_pos_of_ne_nil hsome
  refine ⟨node_list.map fun u => (u, 1 / (node_list.length : ℚ)), ?_, Dict.keys_map, ?_, ?_⟩
  · rw [initial_rank, divide_of_ne_zero hlength.ne']
    rfl
  · intro u hu
    rw [Dict.amount_map (f := fun _ => 1 / (node_list.length : ℚ)) hu]
    exact div_pos one_pos hlength
  · rw [Dict.total, List.map_map]
    simp only [Function.comp_def, List.map_const', List.sum_replicate, nsmul_eq_mul]
    field_simp

end Step

section Adjacency

variable {edges : List (String × String)} {node_list : List String}

theorem get?_map_keys {f : String → List String} {u : String} (hu : u ∈ node_list) :
    Dict.get? (node_list.map fun u => (u, f u)) u = some (f u) := by
  induction node_list with
  | nil => simp at hu
  | cons w node_list ih =>
    rw [List.map_cons, Dict.get?, List.lookup_cons]
    by_cases huw : u = w
    · simp [huw]
    · rw [beq_eq_false_iff_ne.2 huw]
      exact ih ((List.mem_cons.1 hu).resolve_left huw)

theorem append_to_map {f : String → List String} {u v : String} (hu : u ∈ node_list) :
    Dict.append_to (node_list.map fun u => (u, f u)) u v =
      node_list.map fun w => (w, if w = u then f w ++ [v] else f w) := by
  have hany : (node_list.map fun w => (w, f w)).any (fun entry => entry.1 == u) = true := by
    rw [List.any_eq_true]
    exact ⟨(u, f u), List.mem_map_of_mem hu, beq_self_eq_true u⟩
  rw [Dict.append_to, get?_map_keys hu, Dict.set, if_pos hany, List.map_map]
  refine List.map_congr_left fun w _ => ?_
  by_cases hw : w = u
  · simp [hw]
  · simp [hw]

theorem foldl_append_to {f : String → List String} {inner : List (String × String)}
    (hinner : ∀ edge ∈ inner, edge.1 ∈ node_list) :
    inner.foldl (fun (out : Dict String (List String)) edge => out.append_to edge.1 edge.2)
        (node_list.map fun u => (u, f u)) =
      node_list.map fun u => (u, f u ++ (inner.filter fun edge => edge.1 = u).map (·.2)) := by
  induction inner generalizing f with
  | nil => simp
  | cons edge inner ih =>
    rw [List.forall_mem_cons] at hinner
    rw [List.foldl_cons, append_to_map hinner.1, ih hinner.2]
    refine List.map_congr_left fun u _ => ?_
    by_cases hu : u = edge.1
    · simp [hu]
    · simp [hu, Ne.symm hu]

/-- The neighbours of every node, in order. -/
theorem adjacency_eq (edges : List (String × String)) (node_list : List String) :
    adjacency edges node_list = node_list.map fun u =>
      (u, sorted str_le (((inner_edges edges node_list).filter fun edge => edge.1 = u).map (·.2))) := by
  have hinner : ∀ edge ∈ inner_edges edges node_list, edge.1 ∈ node_list := by
    intro edge hedge
    have hends := (List.mem_filter.1 hedge).2
    rw [decide_eq_true_eq] at hends
    exact hends.1
  rw [adjacency, foldl_append_to (f := fun _ => []) hinner, List.map_map]
  rfl

theorem mem_outs_adjacency {u v : String} (h : v ∈ outs (adjacency edges node_list) u) : v ∈ node_list := by
  rw [outs] at h
  cases hget : (adjacency edges node_list).get? u with
  | none => simp [hget] at h
  | some vs =>
    rw [hget, Option.getD_some] at h
    have hentry := Dict.mem_of_get? hget
    rw [adjacency_eq] at hentry
    obtain ⟨w, -, heq⟩ := List.mem_map.1 hentry
    obtain ⟨rfl, rfl⟩ := Prod.mk.inj heq
    rw [mem_sorted] at h
    obtain ⟨edge, hedge, rfl⟩ := List.mem_map.1 h
    have hends := (List.mem_filter.1 (List.mem_of_mem_filter hedge)).2
    rw [decide_eq_true_eq] at hends
    exact hends.2

theorem adjacency_congr {edges' : List (String × String)} (hperm : edges'.Perm edges) :
    adjacency edges' node_list = adjacency edges node_list := by
  have hinner : (inner_edges edges' node_list).Perm (inner_edges edges node_list) := hperm.filter _
  rw [adjacency_eq, adjacency_eq]
  refine List.map_congr_left fun u _ => ?_
  rw [sorted_str_congr ((hinner.filter _).map _)]

end Adjacency

section Scores

variable {edges : List (String × String)} {nodes : List String}

/-- The ranks after a number of iterations, whether the loop comes that far or not. -/
def ranks_after (edges : List (String × String)) (nodes : List String) : Nat → Option (Dict String ℚ)
  | 0 => initial_rank (sorted str_le nodes)
  | iterations + 1 => do
    let rank ← ranks_after edges nodes iterations
    let teleport ← divide (1 - DAMPING) (sorted str_le nodes).length
    pagerank_step (sorted str_le nodes) (adjacency edges (sorted str_le nodes)) teleport rank

theorem ranks_after_ranked (hnodup : nodes.Nodup) (hsome : nodes ≠ []) (iterations : Nat) :
    ∃ rank, ranks_after edges nodes iterations = some rank ∧ Ranked (sorted str_le nodes) rank := by
  have hperm : (sorted str_le nodes).Perm nodes := sorted_perm nodes
  have hsome : sorted str_le nodes ≠ [] := by
    intro hnil
    rw [hnil] at hperm
    exact hsome hperm.nil_eq.symm
  induction iterations with
  | zero => exact initial_rank_ranked hsome
  | succ iterations ih =>
    obtain ⟨rank, hrank, hranked⟩ := ih
    have hlength : ((sorted str_le nodes).length : ℚ) ≠ 0 := by
      rw [Nat.cast_ne_zero]
      simpa using hsome
    obtain ⟨nxt, hstep, hnxt⟩ := pagerank_step_ranked (hperm.nodup_iff.2 hnodup) (fun _ _ h => mem_outs_adjacency h) hsome rfl hranked
    refine ⟨nxt, ?_, hnxt⟩
    rw [ranks_after, hrank, divide_of_ne_zero hlength]
    exact hstep

/-- What the loop ends with are the ranks after some iteration. -/
theorem pagerank_loop_ranks {teleport : ℚ} (hnodup : nodes.Nodup) (hsome : nodes ≠ [])
    (hteleport : divide (1 - DAMPING) (sorted str_le nodes).length = some teleport) (left : Nat) {iterations : Nat}
    {rank : Dict String ℚ} (hrank : ranks_after edges nodes iterations = some rank) :
    ∃ last ranks, pagerank_loop (sorted str_le nodes) (adjacency edges (sorted str_le nodes)) teleport left rank = some ranks ∧
      ranks_after edges nodes last = some ranks := by
  induction left generalizing iterations rank with
  | zero => exact ⟨iterations, rank, rfl, hrank⟩
  | succ left ih =>
    obtain ⟨nxt, hnxt, -⟩ := @ranks_after_ranked edges _ hnodup hsome (iterations + 1)
    have hstep : pagerank_step (sorted str_le nodes) (adjacency edges (sorted str_le nodes)) teleport rank = some nxt := by
      rw [ranks_after, hrank, hteleport] at hnxt
      exact hnxt
    rw [pagerank_loop, hstep, Option.bind_eq_bind, Option.bind_some]
    split
    · exact ⟨iterations + 1, nxt, rfl, hnxt⟩
    · exact ih hnxt

theorem mapM_divide {f : String → ℚ} {peak : ℚ} (hpeak : peak ≠ 0) (us : List String) :
    (us.mapM fun u => do
      let score ← divide (f u) peak
      return (u, score)) = some (us.map fun u => (u, f u / peak)) := by
  induction us with
  | nil => rfl
  | cons u us ih =>
    rw [List.mapM_cons, ih, divide_of_ne_zero hpeak]
    rfl

theorem ranked_peak {node_list : List String} {rank : Dict String ℚ} (hnodup : node_list.Nodup) (hsome : node_list ≠ [])
    (hrank : Ranked node_list rank) :
    ∃ peak, (rank.map (·.2)).max? = some peak ∧ 0 < peak ∧ (∃ u ∈ node_list, rank.amount u = peak) ∧
      ∀ u ∈ node_list, rank.amount u ≤ peak := by
  have hvalues : rank.map (·.2) = node_list.map rank.amount := by
    rw [Dict.map_snd_eq (by rwa [hrank.keys]), hrank.keys]
  rw [hvalues]
  cases hpeak : (node_list.map rank.amount).max? with
  | none => simp [hsome] at hpeak
  | some peak =>
    obtain ⟨hmem, hmax⟩ := List.max?_eq_some_iff.1 hpeak
    obtain ⟨u, hu, rfl⟩ := List.mem_map.1 hmem
    exact ⟨_, rfl, hrank.positive u hu, ⟨u, hu, rfl⟩, fun v hv => hmax _ (List.mem_map_of_mem hv)⟩

/-- Where an edge joins two ranked nodes, every score is the rank of its node against the highest one. -/
theorem pagerank_scores (hnodup : nodes.Nodup) (hedge : inner_edges edges nodes ≠ []) :
    ∃ scores, pagerank edges nodes = some scores ∧ (scores.map (·.1)).Perm nodes ∧
      (∀ entry ∈ scores, 0 < entry.2 ∧ entry.2 ≤ 1) ∧ (∃ entry ∈ scores, entry.2 = 1) ∧
      ∃ last rank peak, ranks_after edges nodes last = some rank ∧ 0 < peak ∧
        ∀ entry ∈ scores, entry.2 = rank.amount entry.1 / peak := by
  have hperm : (sorted str_le nodes).Perm nodes := sorted_perm nodes
  have hsorted : (sorted str_le nodes).Nodup := hperm.nodup_iff.2 hnodup
  have hinner : inner_edges edges (sorted str_le nodes) = inner_edges edges nodes := by
    simp only [inner_edges, mem_sorted]
  have hnodes : nodes ≠ [] := by
    rintro rfl
    simp [inner_edges] at hedge
  have hsome : sorted str_le nodes ≠ [] := by
    intro hnil
    rw [hnil] at hperm
    exact hnodes hperm.nil_eq.symm
  have hlength : ((sorted str_le nodes).length : ℚ) ≠ 0 := by
    rw [Nat.cast_ne_zero]
    simpa using hsome
  obtain ⟨initial, hinitial, -⟩ := @ranks_after_ranked edges _ hnodup hnodes 0
  have hteleport := divide_of_ne_zero (a := 1 - DAMPING) hlength
  obtain ⟨last, rank, hloop, hrank⟩ := pagerank_loop_ranks hnodup hnodes hteleport MAX_ITERATIONS hinitial
  have hranked : Ranked (sorted str_le nodes) rank := by
    obtain ⟨other, hother, hranked⟩ := @ranks_after_ranked edges _ hnodup hnodes last
    rw [hrank] at hother
    rwa [Option.some.inj hother]
  obtain ⟨peak, hpeak, hpositive, ⟨top, htop, heq⟩, hmax⟩ := ranked_peak hsorted hsome hranked
  have hscores : pagerank edges nodes = some ((sorted str_le nodes).map fun u => (u, rank.amount u / peak)) := by
    have hstart : initial_rank (sorted str_le nodes) = some initial := hinitial
    have hcount : ¬(inner_edges edges (sorted str_le nodes)).length = 0 := by simpa [hinner] using hedge
    rw [pagerank, if_neg (mt List.length_eq_zero_iff.1 hsome), if_neg hcount, hstart, hteleport]
    simp only [Option.bind_eq_bind, Option.bind_some]
    rw [hloop, Option.bind_some, hpeak, Option.bind_some, if_neg (not_le.2 hpositive)]
    exact mapM_divide hpositive.ne' _
  refine ⟨_, hscores, by rwa [Dict.keys_map], ?_, ?_, last, rank, peak, hrank, hpositive, ?_⟩
  · intro entry hentry
    obtain ⟨u, hu, rfl⟩ := List.mem_map.1 hentry
    exact ⟨div_pos (hranked.positive u hu) hpositive, div_le_one_of_le₀ (hmax u hu) hpositive.le⟩
  · exact ⟨_, List.mem_map_of_mem htop, by rw [heq, div_self hpositive.ne']⟩
  · intro entry hentry
    obtain ⟨u, -, rfl⟩ := List.mem_map.1 hentry
    rfl

/-- The scores do not depend on the order in which edges and nodes are listed. -/
theorem pagerank_congr {edges' : List (String × String)} {nodes' : List String} (hedges : edges'.Perm edges)
    (hnodes : nodes'.Perm nodes) : pagerank edges' nodes' = pagerank edges nodes := by
  have hinner : ∀ node_list, (inner_edges edges' node_list).length = (inner_edges edges node_list).length :=
    fun node_list => (hedges.filter _).length_eq
  unfold pagerank
  simp only [sorted_str_congr hnodes, adjacency_congr hedges, hinner]

/-- Where no edge joins two ranked nodes, the graph says nothing and every score is 0. -/
theorem pagerank_edgeless (hedge : inner_edges edges nodes = []) :
    pagerank edges nodes = some ((sorted str_le nodes).map fun u => (u, 0)) := by
  have hinner : inner_edges edges (sorted str_le nodes) = inner_edges edges nodes := by
    simp only [inner_edges, mem_sorted]
  rw [pagerank]
  split
  · rename_i hnone
    rw [List.length_eq_zero_iff.1 hnone]
    rfl
  · rw [if_pos (by rw [hinner, hedge]; rfl)]

/-- After every iteration the ranks are positive and sum to 1, no division fails, and the scores lie between 0 and 1 with
1 among them; a graph without edges between its nodes scores 0 throughout. -/
theorem pagerank_well_defined (edges : List (String × String)) (nodes : List String) (hnodup : nodes.Nodup) :
    (nodes ≠ [] → ∀ iterations, ∃ rank, ranks_after edges nodes iterations = some rank ∧ Ranked (sorted str_le nodes) rank) ∧
    (inner_edges edges nodes ≠ [] → ∃ scores, pagerank edges nodes = some scores ∧ (scores.map (·.1)).Perm nodes ∧
      (∀ entry ∈ scores, 0 < entry.2 ∧ entry.2 ≤ 1) ∧ (∃ entry ∈ scores, entry.2 = 1) ∧
      ∃ last rank peak, ranks_after edges nodes last = some rank ∧ 0 < peak ∧
        ∀ entry ∈ scores, entry.2 = rank.amount entry.1 / peak) ∧
    (inner_edges edges nodes = [] → pagerank edges nodes = some ((sorted str_le nodes).map fun u => (u, 0))) ∧
    ∀ (edges' : List (String × String)) (nodes' : List String), edges'.Perm edges → nodes'.Perm nodes →
      pagerank edges' nodes' = pagerank edges nodes :=
  ⟨ranks_after_ranked hnodup, pagerank_scores hnodup, pagerank_edgeless, fun _ _ => pagerank_congr⟩

/-- A hub, a self-loop, a duplicate edge and a node without outgoing edges. -/
theorem pagerank_well_defined_hub : ∃ scores,
    pagerank [("b", "a"), ("b", "a"), ("c", "c"), ("c", "a"), ("c", "ghost")] ["a", "b", "c"] = some scores ∧
      ∃ entry ∈ scores, entry.2 = 1 := by
  have hnodup : ["a", "b", "c"].Nodup := by decide
  obtain ⟨scores, hscores, -, -, hone, -⟩ :=
    (pagerank_well_defined [("b", "a"), ("b", "a"), ("c", "c"), ("c", "a"), ("c", "ghost")] ["a", "b", "c"] hnodup).2.1 (by decide)
  exact ⟨scores, hscores, hone⟩

/-- A graph without edges has no score above 0. -/
theorem pagerank_edgeless_zero : ¬∀ (edges : List (String × String)) (nodes : List String), nodes.Nodup → nodes ≠ [] →
    ∃ scores, pagerank edges nodes = some scores ∧ (∀ entry ∈ scores, 0 < entry.2 ∧ entry.2 ≤ 1) ∧
      ∃ entry ∈ scores, entry.2 = 1 := by
  intro h
  obtain ⟨scores, hscores, hrange, -⟩ := h [] ["a"] (by decide) (by decide)
  rw [pagerank_edgeless rfl] at hscores
  obtain rfl := Option.some.inj hscores
  have hzero := (hrange ("a", 0) (by decide)).1
  exact absurd hzero (lt_irrefl 0)

end Scores

end AgenticKb

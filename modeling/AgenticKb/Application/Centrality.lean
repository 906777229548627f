import Mathlib.Algebra.Ring.Rat
import Mathlib.Algebra.Order.Field.Rat
import Mathlib.Data.List.MinMax
import AgenticKb.Lib.Totals

open AgenticKb.Lib

namespace AgenticKb

/-! PageRank over the live graph, with rationals for the source's floats. -/

def DAMPING : ℚ := 17 / 20

def MAX_ITERATIONS : Nat := 100

def TOLERANCE : ℚ := 1 / 1000000000

/-- `a / b`; `none` where Python raises `ZeroDivisionError`. -/
def divide (a b : ℚ) : Option ℚ := if b = 0 then none else some (a / b)

section Graph

variable (edges : List (String × String)) (node_list : List String)

/-- An edge is followed if both of its ends are ranked. -/
def inner_edges : List (String × String) := edges.filter fun edge => edge.1 ∈ node_list ∧ edge.2 ∈ node_list

/-- `out` -/
def adjacency : Dict String (List String) :=
  let out := (inner_edges edges node_list).foldl (fun (out : Dict String (List String)) edge => out.append_to edge.1 edge.2)
    (node_list.map fun u => (u, []))
  out.map fun entry => (entry.1, sorted str_le entry.2)

end Graph

section Rank

variable (node_list : List String) (out : Dict String (List String))

/-- `out[u]` -/
def outs (u : String) : List String := (out.get? u).getD []

/-- `u` gives its neighbours equal shares of its damped rank. -/
def spread (rank nxt : Dict String ℚ) (u : String) : Option (Dict String ℚ) :=
  if (outs out u).isEmpty then some nxt
  else do
    let share ← divide (DAMPING * rank.amount u) (outs out u).length
    return (outs out u).foldl (fun (nxt : Dict String ℚ) v => nxt.add v share) nxt

/-- One iteration; the mass of the nodes without outgoing edges goes to all nodes alike. -/
def pagerank_step (teleport : ℚ) (rank : Dict String ℚ) : Option (Dict String ℚ) := do
  let dangling := ((node_list.filter fun u => (outs out u).isEmpty).map rank.amount).sum
  let base ← divide (DAMPING * dangling) node_list.length
  node_list.foldlM (spread out rank) (node_list.map fun u => (u, teleport + base))

/-- How far two rankings are apart. -/
def rank_delta (rank nxt : Dict String ℚ) : ℚ := (node_list.map fun u => |nxt.amount u - rank.amount u|).sum

def pagerank_loop (teleport : ℚ) : Nat → Dict String ℚ → Option (Dict String ℚ)
  | 0, rank => some rank
  | iterations + 1, rank => do
    let nxt ← pagerank_step node_list out teleport rank
    if rank_delta node_list rank nxt < TOLERANCE then some nxt else pagerank_loop teleport iterations nxt

/-- Every node's share at the start. -/
def initial_rank : Option (Dict String ℚ) := do
  let share ← divide 1 node_list.length
  return node_list.map fun u => (u, share)

end Rank

/-- Scores between 0 and 1; `none` where a division fails. `nodes` is a set, in any order. -/
def pagerank (edges : List (String × String)) (nodes : List String) : Option (Dict String ℚ) :=
  let node_list := sorted str_le nodes
  if node_list.length = 0 then some []
  else if (inner_edges edges node_list).length = 0 then some (node_list.map fun u => (u, 0))
  else do
    let out := adjacency edges node_list
    let rank ← initial_rank node_list
    let teleport ← divide (1 - DAMPING) node_list.length
    let rank ← pagerank_loop node_list out teleport MAX_ITERATIONS rank
    let peak ← (rank.map (·.2)).max?
    if peak ≤ 0 then return node_list.map fun u => (u, 0)
    else node_list.mapM fun u => do
      let score ← divide (rank.amount u) peak
      return (u, score)

end AgenticKb

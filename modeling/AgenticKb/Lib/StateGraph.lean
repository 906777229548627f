import Mathlib.Data.List.Induction
import Mathlib.Data.List.Infix

namespace AgenticKb.Lib

/-! Graphs of nodes over shared values, and the engine that runs them.

The engine is no part of the program. It may run the nodes of a thread as often as it likes, side by side and in attempts
that overlap, stop and are resumed. What it promises is how the values came about that it hands out. -/

structure StateGraph (Node Values Update Input : Type*) where
  nodes : List Node
  /-- What a node waits for, and the node. -/
  edges : List (List Node × Node)
  /-- An input starts the values of a thread, or is merged into those it has. -/
  accept : Option Values → Input → Values
  reduce : Values → Update → Values

/-- What happens to a thread, as the engine is told of it. -/
inductive Offer (Node Update Input : Type*) where
  /-- The graph is run on an input. -/
  | input (i : Input)
  /-- The graph is run from where it was saved. -/
  | resume
  /-- The thread is deleted. -/
  | delete
  /-- A node returns. -/
  | update (n : Node) (u : Update)

section Values

variable {Node Values Update Input : Type*}

/-- Values that come of a thread's inputs and updates, with the nodes whose updates are in them. -/
inductive StateGraph.Built (g : StateGraph Node Values Update Input) (offers : List (Offer Node Update Input)) :
    List Node → Values → Prop
  | started {i : Input} (hinput : .input i ∈ offers) : Built g offers [] (g.accept none i)
  | merged {i : Input} {done : List Node} {v : Values} (hinput : .input i ∈ offers) (h : Built g offers done v) :
    Built g offers done (g.accept (some v) i)
  | reduced {n : Node} {u : Update} {done : List Node} {v : Values} (hupdate : .update n u ∈ offers)
    (h : Built g offers done v) : Built g offers (done ++ [n]) (g.reduce v u)

/-- Some edge leads to the node, and all it waits for is done. -/
def StateGraph.Waited (g : StateGraph Node Values Update Input) (n : Node) (done : List Node) : Prop :=
  ∃ edge ∈ g.edges, edge.2 = n ∧ edge.1 ⊆ done

instance [DecidableEq Node] (g : StateGraph Node Values Update Input) (n : Node) (done : List Node) :
    Decidable (g.Waited n done) := inferInstanceAs (Decidable (∃ edge ∈ g.edges, edge.2 = n ∧ edge.1 ⊆ done))

/-- No node waits for it. -/
def StateGraph.Last (g : StateGraph Node Values Update Input) (n : Node) : Prop :=
  n ∈ g.nodes ∧ ∀ edge ∈ g.edges, n ∉ edge.1

instance [DecidableEq Node] (g : StateGraph Node Values Update Input) (n : Node) : Decidable (g.Last n) :=
  inferInstanceAs (Decidable (n ∈ g.nodes ∧ ∀ edge ∈ g.edges, n ∉ edge.1))

/-- An engine, by what it may do after what a thread was given. -/
structure Engine (Node Values Update Input : Type*) where
  /-- A node is given these values. -/
  hands : List (Offer Node Update Input) → Node → Values → Prop
  /-- An attempt ends with these values. -/
  returns : List (Offer Node Update Input) → Values → Prop

/-- What an engine promises: a node is given values that are reduced from those of its thread, with the updates of the
nodes it waits for in them; and an attempt ends after a node that no other one waits for. -/
structure Engine.Promises (engine : Engine Node Values Update Input) (g : StateGraph Node Values Update Input) : Prop where
  hands : ∀ offers n v, engine.hands offers n v → ∃ done, g.Built offers done v ∧ g.Waited n done
  returns : ∀ offers v, engine.returns offers v →
    ∃ done, g.Built offers done v ∧ ∃ n ∈ done.getLast?, g.Last n

variable {g : StateGraph Node Values Update Input} {offers offers' : List (Offer Node Update Input)}
  {done : List Node} {v : Values}

theorem StateGraph.Built.mono (hsubset : offers ⊆ offers') (h : g.Built offers done v) : g.Built offers' done v := by
  induction h with
  | started hinput => exact .started (hsubset hinput)
  | merged hinput _ ih => exact .merged (hsubset hinput) ih
  | reduced hupdate _ ih => exact .reduced (hsubset hupdate) ih

/-- The values of a thread whose offers are taken as they come. -/
def StateGraph.replay (g : StateGraph Node Values Update Input) (offers : List (Offer Node Update Input)) :
    Option (List Node × Values) :=
  offers.foldl (fun values offer => match offer with
    | .input i => some (values.elim [] (·.1), g.accept (values.map (·.2)) i)
    | .update n u => values.map fun values => (values.1 ++ [n], g.reduce values.2 u)
    | _ => values) none

theorem StateGraph.built_replay (h : g.replay offers = some (done, v)) : g.Built offers done v := by
  induction offers using List.reverseRecOn generalizing done v with
  | nil => cases h
  | append_singleton offers offer ih =>
    have hlast : offer ∈ offers ++ [offer] := List.mem_append_right _ List.mem_cons_self
    have hbefore : ∀ {done v}, g.replay offers = some (done, v) → g.Built (offers ++ [offer]) done v :=
      fun h => (ih h).mono (List.subset_append_left _ _)
    rw [replay, List.foldl_append, List.foldl_cons, List.foldl_nil, ← replay] at h
    cases offer with
    | input i =>
      obtain ⟨rfl, rfl⟩ := Prod.mk.inj (Option.some.inj h)
      cases hreplay : g.replay offers with
      | none => exact .started hlast
      | some values => exact .merged hlast (hbefore hreplay)
    | resume => exact hbefore h
    | delete => exact hbefore h
    | update n u =>
      obtain ⟨values, hreplay, hvalues⟩ := Option.map_eq_some_iff.1 h
      obtain ⟨rfl, rfl⟩ := Prod.mk.inj hvalues
      exact .reduced hlast (hbefore hreplay)

/-- The points that a thread has come through, as its offers came. -/
def StateGraph.points (g : StateGraph Node Values Update Input) (offers : List (Offer Node Update Input)) :
    List (List Node × Values) := offers.inits.filterMap g.replay

/-- An engine that goes back to any point of a thread. -/
def StateGraph.in_order (g : StateGraph Node Values Update Input) : Engine Node Values Update Input where
  hands offers n v := ∃ point ∈ g.points offers, point.2 = v ∧ g.Waited n point.1
  returns offers v := ∃ point ∈ g.points offers, point.2 = v ∧ ∃ n ∈ point.1.getLast?, g.Last n

instance [DecidableEq Node] [DecidableEq Values] (n : Node) : Decidable (g.in_order.hands offers n v) :=
  inferInstanceAs (Decidable (∃ point ∈ g.points offers, point.2 = v ∧ g.Waited n point.1))

instance [DecidableEq Node] [DecidableEq Values] : Decidable (g.in_order.returns offers v) :=
  inferInstanceAs (Decidable (∃ point ∈ g.points offers, point.2 = v ∧ ∃ n ∈ point.1.getLast?, g.Last n))

theorem StateGraph.built_of_mem_points {point : List Node × Values} (h : point ∈ g.points offers) :
    g.Built offers point.1 point.2 := by
  obtain ⟨first, hfirst, hreplay⟩ := List.mem_filterMap.1 h
  exact (built_replay hreplay).mono ((List.mem_inits _ _).1 hfirst).subset

theorem StateGraph.promises_in_order (g : StateGraph Node Values Update Input) : g.in_order.Promises g := by
  constructor
  case hands =>
    intro offers n v h
    obtain ⟨point, hpoint, rfl, hwaited⟩ := h
    exact ⟨point.1, built_of_mem_points hpoint, hwaited⟩
  case returns =>
    intro offers v h
    obtain ⟨point, hpoint, rfl, hlast⟩ := h
    exact ⟨point.1, built_of_mem_points hpoint, hlast⟩

end Values

end AgenticKb.Lib

import DerivationBelief.CausalGraph

/-!
# Tables of priors

A table lists distributions and the names of the nodes they belong to.  Giving one distribution to
several nodes ties their parameters.  A table is applied to a graph in order: a distribution enters
the graph when the first known node asks for it, and unknown nodes are skipped.
-/

namespace DerivationBelief

structure PriorTable (α : Type) where
  dists : List (Distribution α)
  assignments : List (String × Nat)

namespace PriorTable

variable {α : Type}

def empty : PriorTable α := ⟨[], []⟩

def isEmpty (table : PriorTable α) : Bool :=
  table.assignments.isEmpty

/-- Give a node a distribution of its own; the number of the distribution comes with the table. -/
def add (table : PriorTable α) (node : String) (d : Distribution α) : PriorTable α × Nat :=
  (⟨table.dists ++ [d], table.assignments ++ [(node, table.dists.length)]⟩, table.dists.length)

def tie (table : PriorTable α) (node : String) (dist : Nat) : Except GraphFault (PriorTable α) :=
  if table.dists.length ≤ dist then .error (.distOutOfRange dist table.dists.length)
  else .ok { table with assignments := table.assignments ++ [(node, dist)] }

end PriorTable

namespace CausalGraph

variable {α : Type}

/-- A graph to which a part of a table has been applied, with the numbers in the graph of the
distributions that have entered it. -/
structure Applying (α : Type) where
  graph : CausalGraph α
  entered : List (Nat × Nat)

def Applying.assign (dists : List (Distribution α)) (s : Applying α) (entry : String × Nat) :
    Applying α :=
  match s.graph.nodeId? entry.1 with
  | none => s
  | some node =>
      match Arrival.get? s.entered entry.2, dists[entry.2]? with
      | some id, _ =>
          { s with graph := { s.graph with
              stochastic := Arrival.put s.graph.stochastic node id } }
      | none, some d =>
          let id := s.graph.distCount
          { graph := { s.graph with
              dists := s.graph.dists ++ [d]
              stochastic := Arrival.put s.graph.stochastic node id }
            entered := Arrival.put s.entered entry.2 id }
      | none, none => s

def applyPriors (g : CausalGraph α) (table : PriorTable α) : CausalGraph α :=
  (table.assignments.foldl (Applying.assign table.dists) ⟨g, []⟩).graph

def buildWithPriors (name : String) (nodes singletons : List String)
    (sums prods : List Derivation) (table : PriorTable α) : Except GraphFault (CausalGraph α) := do
  return (← build name nodes singletons sums prods).applyPriors table

end CausalGraph

end DerivationBelief

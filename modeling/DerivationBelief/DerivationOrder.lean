import DerivationBelief.CausalGraph
import DerivationBelief.StableOrder
import DerivationBelief.StrongComponents

/-!
# Order and cycles of a derivation

Every body node leads to its head.  A search that keeps a stack finishes a node after all nodes that
it leads to, so the reverse of the order in which nodes finish puts bodies in front of their heads
unless there is a cycle.  Whether it does is found out by a second search, against the direction of
the edges: every node must find all nodes behind it met.  A cycle lies in a strong component of two
or more nodes.
-/

namespace DerivationBelief

/-- What has been met, and what has been finished after all that it leads to. -/
structure Search where
  met : List Nat
  finished : List Nat
deriving DecidableEq, Repr

namespace Search

/-- Work off a stack.  A node that is met for the first time stays, and what it leads to is pushed
on it, one after another, unless it has been met.  A node that is on top again is taken off, and
finished unless it has been.  There is no result when a node leads to itself. -/
def drain (ahead : Nat → List Nat) : Nat → List Nat → Search → Option Search
  | 0, _, s => some s
  | _ + 1, [], s => some s
  | fuel + 1, v :: stack, s =>
      if s.met.contains v then
        drain ahead fuel stack
          (if s.finished.contains v then s else { s with finished := s.finished ++ [v] })
      else if (ahead v).contains v then none
      else
        let met := v :: s.met
        let pushed := (ahead v).filter (fun u => !met.contains u)
        drain ahead fuel (pushed.foldl (fun stack u => u :: stack) (v :: stack)) { s with met }

/-- Search from every node below a count that has not been met.  A node that is met pushes at most
as many nodes as there are edges, so the fuel suffices. -/
def runFrom (ahead : Nat → List Nat) (count edges : Nat) : List Nat → Search → Option Search
  | [], s => some s
  | v :: roots, s =>
      if s.met.contains v then runFrom ahead count edges roots s
      else (drain ahead (count * (edges + 1) + 1) [v] s).bind (runFrom ahead count edges roots)

/-- The order in which the nodes below a count finish. -/
def finishOrder? (ahead : Nat → List Nat) (count edges : Nat) : Option (List Nat) :=
  (runFrom ahead count edges (List.range count) ⟨[], []⟩).map Search.finished

/-- The next node of a walk that has not been met, and the walk behind it. -/
def step? (behind : Nat → List Nat) : List Nat → List Nat → Option (Nat × List Nat × List Nat)
  | [], _ => none
  | v :: stack, met =>
      if met.contains v then step? behind stack met
      else
        let met := v :: met
        let pushed := (behind v).filter (fun u => !met.contains u)
        some (v, pushed.foldl (fun stack u => u :: stack) stack, met)

/-- Whether a walk from some node of the order finds another one that was not met before it. -/
def misses (behind : Nat → List Nat) : List Nat → List Nat → Bool
  | [], _ => false
  | v :: order, met =>
      match step? behind [v] met with
      | none => misses behind order met
      | some (_, stack, met) =>
          match step? behind stack met with
          | none => misses behind order met
          | some _ => true

end Search

namespace CausalGraph

variable {α : Type} (g : CausalGraph α)

/-- The edges of the sums and then of the products, each from a body node to the head. -/
def edges : List (Nat × Nat) :=
  (g.sums ++ g.prods).flatMap (fun d => d.2.map (fun sub => (sub, d.1)))

/-- What a node leads to, by the newest edge first. -/
def heads (v : Nat) : List Nat :=
  ((g.edges.filter (fun e => e.1 = v)).map Prod.snd).reverse

/-- What leads to a node, by the newest edge first. -/
def subs (v : Nat) : List Nat :=
  ((g.edges.filter (fun e => e.2 = v)).map Prod.fst).reverse

/-- The strong components of more than one node. -/
def findCycles : List (List Nat) :=
  ((ComponentSearch.run g.heads g.nodeCount).components.filter (fun c => 1 < c.length)).map
    (sortBy (fun a b => decide (a ≤ b)))

/-- An order with every body node in front of its heads.  There is none on a cycle. -/
def topologicalOrder? : Option (List Nat) := do
  let order := (← Search.finishOrder? g.heads g.nodeCount g.edges.length).reverse
  if Search.misses g.subs order [] then none else some order

end CausalGraph

end DerivationBelief

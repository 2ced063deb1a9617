import DerivationBelief.ArrivalOrder
import DerivationBelief.Distribution

/-!
# Causal graphs

A causal graph has singletons, sums and products over the nodes that derive them.  Nodes are
numbered in order of arrival.  A built graph gives every node exactly one role, resolves every
reference, and has no node in its own body.  Some nodes are stochastic: they refer to one of the
distributions of the graph, and nodes that refer to the same distribution share its parameter.
-/

namespace DerivationBelief

structure CausalGraph (α : Type) where
  name : String
  nodes : List String
  singletons : List Nat
  /-- A sum holds when one of its body holds. -/
  sums : List (Nat × List Nat)
  /-- A product holds when all of its body hold. -/
  prods : List (Nat × List Nat)
  dists : List (Distribution α)
  stochastic : List (Nat × Nat)

abbrev Derivation := String × List String

namespace CausalGraph

def nodeIn? (nodes : List String) (node : String) : Option Nat :=
  Arrival.position? nodes node

def resolveSingletons (nodes : List String) (singletons : List String) :
    Except GraphFault (List Nat) :=
  singletons.foldlM
    (fun found node =>
      match nodeIn? nodes node with
      | some id => .ok (Arrival.insert found id)
      | none => .error (.unmetSingleton node))
    []

def resolveBody (nodes : List String) (head : String) (headId : Nat) (body : List String) :
    Except GraphFault (List Nat) :=
  body.foldlM
    (fun found sub =>
      match nodeIn? nodes sub with
      | none => .error (.unmetSub head sub)
      | some id =>
          if id = headId then .error (.selfReference head) else .ok (Arrival.insert found id))
    []

def resolveDerivation (nodes : List String) (found : List (Nat × List Nat)) (d : Derivation) :
    Except GraphFault (List (Nat × List Nat)) :=
  match nodeIn? nodes d.1 with
  | none => .error (.unmetHead d.1)
  | some headId => do
      let body ← resolveBody nodes d.1 headId d.2
      if Arrival.hasKey found headId then .error (.overlappedNode d.1)
      else return found ++ [(headId, body)]

def resolveDerivations (nodes : List String) (derivations : List Derivation) :
    Except GraphFault (List (Nat × List Nat)) :=
  derivations.foldlM (resolveDerivation nodes) []

section Structure

variable {α : Type} (g : CausalGraph α)

def nodeCount : Nat :=
  g.nodes.length

def distCount : Nat :=
  g.dists.length

def nodeId? (node : String) : Option Nat :=
  nodeIn? g.nodes node

def isSingleton (id : Nat) : Bool :=
  g.singletons.contains id

def sum? (id : Nat) : Option (List Nat) :=
  Arrival.get? g.sums id

def prod? (id : Nat) : Option (List Nat) :=
  Arrival.get? g.prods id

def isSum (id : Nat) : Bool :=
  (g.sum? id).isSome

def isProd (id : Nat) : Bool :=
  (g.prod? id).isSome

def roleCount (id : Nat) : Nat :=
  [g.isSingleton id, g.isSum id, g.isProd id].count true

def validate : Except GraphFault Unit :=
  g.nodes.zipIdx.forM (fun entry =>
    match g.roleCount entry.2 with
    | 0 => .error (.redundantNode entry.1)
    | 1 => .ok ()
    | _ => .error (.overlappedNode entry.1))

def build (name : String) (nodes singletons : List String) (sums prods : List Derivation) :
    Except GraphFault (CausalGraph α) := do
  let nodes := Arrival.distinct nodes
  let singletons ← resolveSingletons nodes singletons
  let sums ← resolveDerivations nodes sums
  let prods ← resolveDerivations nodes prods
  let g : CausalGraph α := ⟨name, nodes, singletons, sums, prods, [], []⟩
  g.validate
  return g

def withName (name : String) : CausalGraph α :=
  { g with name }

/-- The graph with a node, and the number of the node. -/
def addNode (node : String) : CausalGraph α × Nat :=
  let nodes := Arrival.insert g.nodes node
  ({ g with nodes }, (nodeIn? nodes node).getD g.nodeCount)

def checkBody (head : Nat) (body : List Nat) : Except GraphFault (List Nat) :=
  if g.nodeCount ≤ head then .error (.nodeOutOfRange head g.nodeCount)
  else
    body.foldlM
      (fun found sub =>
        if g.nodeCount ≤ sub then .error (.nodeOutOfRange sub g.nodeCount)
        else if sub = head then .error (.selfReference s!"{head}")
        else .ok (Arrival.insert found sub))
      []

def setSum (head : Nat) (body : List Nat) : Except GraphFault (CausalGraph α) := do
  return { g with sums := Arrival.put g.sums head (← g.checkBody head body) }

def setProd (head : Nat) (body : List Nat) : Except GraphFault (CausalGraph α) := do
  return { g with prods := Arrival.put g.prods head (← g.checkBody head body) }

def distOf? (id : Nat) : Option Nat :=
  Arrival.get? g.stochastic id

def isStochastic (id : Nat) : Bool :=
  (g.distOf? id).isSome

def stochasticNodes : List (Nat × Nat) :=
  sortBy (fun a b => decide (a.1 ≤ b.1)) g.stochastic

/-- Give a node a distribution of its own.  An unknown node changes nothing. -/
def setPrior (node : String) (d : Distribution α) : CausalGraph α × Option Nat :=
  match g.nodeId? node with
  | none => (g, none)
  | some id =>
      ({ g with
          dists := g.dists ++ [d]
          stochastic := Arrival.put g.stochastic id g.distCount }, some g.distCount)

def tie (node dist : Nat) : Except GraphFault (CausalGraph α) :=
  if g.nodeCount ≤ node then .error (.nodeOutOfRange node g.nodeCount)
  else if g.distCount ≤ dist then .error (.distOutOfRange dist g.distCount)
  else .ok { g with stochastic := Arrival.put g.stochastic node dist }

def forgetPriors : CausalGraph α :=
  { g with dists := [], stochastic := [] }

def setDist (dist : Nat) (d : Distribution α) : CausalGraph α :=
  { g with dists := g.dists.set dist d }

def bodyOf (id : Nat) : List Nat :=
  (g.sum? id).getD [] ++ (g.prod? id).getD []

end Structure

end CausalGraph

end DerivationBelief

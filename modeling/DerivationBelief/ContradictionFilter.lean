import DerivationBelief.LearnerContext

/-!
# Dropping impossible observations

Nodes that are observed false make others false: a product with a false node in its body, and a sum
whose body consists of such products.  Observing such a node as true is a contradiction, and the
observation is dropped.
-/

namespace DerivationBelief

/-- The observations that are kept, the products that have been found false, and the sums that use
the products found in the current round. -/
structure Filtering where
  kept : Batch
  falseProds : List Nat
  candidates : List Nat
deriving DecidableEq, Repr

namespace Filtering

def users (derivations : List (Nat × List Nat)) (node : Nat) : List Nat :=
  (derivations.filter (fun d => d.2.contains node)).map Prod.fst

def dropTrue (kept : Batch) (node : Nat) : Batch :=
  kept.filter (fun entry => !(entry.1 = node && entry.2))

variable {α : Type} (g : CausalGraph α)

def markProd (s : Filtering) (head : Nat) : Filtering :=
  if s.falseProds.contains head then s
  else
    { kept := dropTrue s.kept head
      falseProds := s.falseProds ++ [head]
      candidates := Arrival.insertAll s.candidates (users g.sums head) }

def markNode (s : Filtering) (node : Nat) : Filtering :=
  (users g.prods node).foldl (markProd g) { s with kept := dropTrue s.kept node }

def falseSums (s : Filtering) : List Nat :=
  s.candidates.filter (fun sum =>
    match g.sum? sum with
    | some body => body.all (fun node => s.falseProds.contains node)
    | none => false)

def run : Nat → Filtering → List Nat → Filtering
  | 0, s, _ => s
  | fuel + 1, s, found =>
      if found.isEmpty then s
      else
        let s := found.foldl (markNode g) { s with candidates := [] }
        run fuel s (falseSums g s)

end Filtering

/-- The observations of a batch that do not contradict those of false nodes.  Every round but the
last one finds a product, so their number bounds the rounds. -/
def CausalGraph.dropContradictions {α : Type} (g : CausalGraph α) (batch : Batch) : Batch :=
  let start := Arrival.putAll [] batch
  let found := (start.filter (fun entry => !entry.2)).map Prod.fst
  (Filtering.run g (g.prods.length + 1) ⟨start, [], []⟩ found).kept

end DerivationBelief

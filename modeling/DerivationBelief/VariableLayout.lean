import DerivationBelief.ArrivalOrder

/-!
# Numbering of the variables of a network

The parameters come first.  Every replica has a block of variables of its own: the nodes, the
latent variables that gate stochastic derivations, and the phony nodes of split bodies.  Every
variable has exactly one factor.
-/

namespace DerivationBelief

structure VariableLayout where
  distCount : Nat
  nodeCount : Nat
  /-- The stochastic nodes with a derivation, in node order. -/
  latents : List Nat
  phonyCount : Nat
  /-- Parameters have their full distribution, and latent variables draw from them. -/
  bayesian : Bool
  /-- The number of replicas beside the first one. -/
  repetitions : Nat
deriving DecidableEq, Repr

namespace VariableLayout

variable (l : VariableLayout)

def latentCount : Nat :=
  if l.bayesian then l.latents.length else 0

def shift : Nat :=
  l.latentCount + l.nodeCount + l.phonyCount

def offset (replica : Nat) : Nat :=
  l.distCount + replica * l.shift

def nodeVar (replica node : Nat) : Nat :=
  l.offset replica + node

def latentVar? (replica node : Nat) : Option Nat :=
  if l.bayesian then
    (Arrival.position? l.latents node).map (fun place => l.offset replica + l.nodeCount + place)
  else none

def phonyVar (replica phony : Nat) : Nat :=
  l.offset replica + l.nodeCount + l.latentCount + phony

/-- The number of factors, which is the number of variables too. -/
def factorCount : Nat :=
  l.distCount + l.shift * (l.repetitions + 1)

end VariableLayout

end DerivationBelief

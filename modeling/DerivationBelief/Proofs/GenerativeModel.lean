import DerivationBelief.DerivationOrder
import DerivationBelief.FactorGraph
import DerivationBelief.Proofs.AcyclicRelation
import DerivationBelief.Proofs.CoherentGraph
import DerivationBelief.Proofs.FactorWeights
import DerivationBelief.Proofs.StateSums
import Mathlib.Tactic

/-!
# The generative model of a causal graph

In the Bayesian mode every distribution draws one value, which all replicas share.  In each replica
a singleton with a prior holds with the drawn value, a singleton without one holds, and so does the
latent variable of every stochastic sum or product.  A sum holds when its latent variable, if it has
one, and some node of its body hold; a product needs all nodes of its body.  In the direct mode every
distribution draws one truth value with its mean, which decides the singletons and gates the
derivations that refer to it.

The probability of a world is the product of the probabilities of all of this, each given what it
depends on.  Without a cycle the probabilities of all worlds add up to one.
-/

namespace DerivationBelief

/-! ## Worlds -/

/-- What is drawn and what holds. -/
structure World where
  /-- The state that each distribution draws: a place in its support, or a truth value. -/
  draw : Nat → Nat
  node : Nat → Nat → Bool
  latent : Nat → Nat → Bool

/-- Values in the unit interval, with probabilities that add up to one. -/
structure Distribution.WellFormed (d : Distribution ℚ) : Prop where
  length_eq : d.supports.length = d.probabilities.length
  unit : ∀ x ∈ d.supports, 0 ≤ x ∧ x ≤ 1
  nonneg : ∀ p ∈ d.probabilities, 0 ≤ p
  total : d.probabilities.sum = 1

/-- The probability that a distribution draws a state. -/
def Distribution.drawProbability (d : Distribution ℚ) (bayesian : Bool) (state : Nat) : ℚ :=
  if bayesian then d.probabilities.getD state 0 else Factor.chance d.mean (decide (state = 1))

/-- The chance that a drawn state gives to what refers to the distribution. -/
def Distribution.drawnChance (d : Distribution ℚ) (bayesian : Bool) (state : Nat) : ℚ :=
  if bayesian then d.supports.getD state 0 else if state = 1 then 1 else 0

def Connective.derives (connective : Connective) (body : List Nat) (holds : Nat → Bool) : Bool :=
  match connective with
  | .any => body.any holds
  | .all => body.all holds

namespace CausalGraph

section Probabilities

variable (g : CausalGraph ℚ) (bayesian : Bool) (w : World)

/-- The stochastic sums and products, in node order. -/
def gatedNodes : List Nat :=
  (List.range g.nodeCount).filter (fun n => g.isStochastic n && !g.isSingleton n)

/-- The chance that its distribution gives to a node; without one it is certain. -/
def chanceOf (n : Nat) : ℚ :=
  match g.distOf? n with
  | none => 1
  | some dist =>
      match g.dists[dist]? with
      | none => 1
      | some d => d.drawnChance bayesian (w.draw dist)

/-- Whether the derivation of a node is let through. -/
def lets (replica n : Nat) : Bool :=
  match g.distOf? n with
  | none => true
  | some dist => if bayesian then w.latent replica n else w.draw dist = 1

/-- The connective and the body that derive a node, none for a singleton. -/
def derivation? (n : Nat) : Option (Connective × List Nat) :=
  match g.sum? n, g.prod? n with
  | some body, _ => some (.any, body)
  | none, some body => some (.all, body)
  | none, none => none

/-- The probability of the truth value of a node, given what it is derived from. -/
def nodeProbability (replica n : Nat) : ℚ :=
  match g.derivation? n with
  | some (connective, body) =>
      agreement (w.node replica n)
        (g.lets bayesian w replica n && connective.derives body (w.node replica))
  | none => Factor.chance (g.chanceOf bayesian w n) (w.node replica n)

def latentProbability (replica n : Nat) : ℚ :=
  Factor.chance (g.chanceOf bayesian w n) (w.latent replica n)

def latentsProbability (replica : Nat) : ℚ :=
  if bayesian then (g.gatedNodes.map (g.latentProbability bayesian w replica)).prod else 1

def replicaProbability (replica : Nat) : ℚ :=
  ((List.range g.nodeCount).map (g.nodeProbability bayesian w replica)).prod *
    g.latentsProbability bayesian w replica

def drawsProbability : ℚ :=
  (g.dists.zipIdx.map (fun entry => entry.1.drawProbability bayesian (w.draw entry.2))).prod

def worldProbability (repetitions : Nat) : ℚ :=
  ((List.range (repetitions + 1)).map (g.replicaProbability bayesian w)).prod *
    g.drawsProbability bayesian w

end Probabilities

def Derives (g : CausalGraph ℚ) (b h : Nat) : Prop :=
  (b, h) ∈ g.edges

end CausalGraph

/-! ## Worlds as assignments -/

namespace VariableLayout

/-- The layout numbers the distributions, nodes and latent variables of a graph. -/
structure Describes (l : VariableLayout) (g : CausalGraph ℚ) (bayesian : Bool) : Prop where
  distCount_eq : l.distCount = g.distCount
  nodeCount_eq : l.nodeCount = g.nodeCount
  latents_eq : l.latents = g.gatedNodes
  bayesian_eq : l.bayesian = bayesian

section Variables

variable (l : VariableLayout)

def nodeVars (replica : Nat) : List Nat :=
  (List.range l.nodeCount).map (l.nodeVar replica)

def latentVars (replica : Nat) : List Nat :=
  (List.range l.latentCount).map (fun place => l.offset replica + l.nodeCount + place)

/-- The variables of the replicas and the parameters, without the phony ones. -/
def worldVars : List Nat :=
  (List.range (l.repetitions + 1)).flatMap (fun r => l.nodeVars r ++ l.latentVars r) ++
    List.range l.distCount

/-- The phony variables of all replicas, ascending. -/
def phonyVars : List Nat :=
  (List.range (l.repetitions + 1)).flatMap (fun r =>
    (List.range l.phonyCount).map (l.phonyVar r))

def world (a : Assignment) : World where
  draw := a
  node replica n := decide (a (l.nodeVar replica n) = 1)
  latent replica n :=
    match l.latentVar? replica n with
    | some v => decide (a v = 1)
    | none => false

end Variables

end VariableLayout

/-- The number of states of a variable: the values of a distribution for its parameter in the
Bayesian mode, and otherwise two. -/
def CausalGraph.stateCount (g : CausalGraph ℚ) (bayesian : Bool) (v : Nat) : Nat :=
  if bayesian then
    match g.dists[v]? with
    | some d => d.supports.length
    | none => 2
  else 2

end DerivationBelief

import DerivationBelief.CausalGraph
import DerivationBelief.PhonyDecomposition
import DerivationBelief.VariableLayout

/-!
# Factor graphs of causal graphs

A causal graph is lowered to the factors of its parameters and a template of the factors of one
replica.  The template has the latent variables first, then the sums and the products, each behind
the phony nodes of its body, and then the singletons.  All replicas share the parameters.

In the Bayesian mode a parameter ranges over the support of its distribution, and a latent variable
that draws from it gates a stochastic derivation.  In the direct mode a parameter is binary with the
mean of its distribution and gates the derivation itself.
-/

namespace DerivationBelief

structure FactorGraph (α : Type) where
  layout : VariableLayout
  parameters : List (Factor Nat α)
  template : List (Factor Slot α)

namespace FactorGraph

/-- The widest clause that is allowed: the joint states of a clause fit a 64-bit field. -/
def maxClauseLimit : Nat := 62

section Replicas

variable {α : Type} (f : FactorGraph α)

def factorCount : Nat :=
  f.parameters.length + f.template.length * (f.layout.repetitions + 1)

def replicaFactors (replica : Nat) : List (Factor Nat α) :=
  f.template.map (Factor.mapVars (Slot.resolve (f.layout.offset replica)))

def factors : List (Factor Nat α) :=
  f.parameters ++ (List.range (f.layout.repetitions + 1)).flatMap f.replicaFactors

end Replicas

structure Lowering (α : Type) where
  graph : CausalGraph α
  bayesian : Bool
  clauseLimit : Nat

namespace Lowering

variable {α : Type} [Scalar α] (c : Lowering α)

def latents : List Nat :=
  (List.range c.graph.nodeCount).filter (fun node =>
    c.graph.isStochastic node && !c.graph.isSingleton node)

def latentSlot (index : Nat) : Slot :=
  .own (c.graph.nodeCount + index)

def phonyBase : Nat :=
  c.graph.nodeCount + if c.bayesian then c.latents.length else 0

def priorOf (node : Nat) : Except CompileFault (Nat × Distribution α) :=
  let dist := (c.graph.distOf? node).getD c.graph.distCount
  match c.graph.dists[dist]? with
  | some d => .ok (dist, d)
  | none => .error (.missingDistribution node dist)

def parameterFactor (dist : Nat) (d : Distribution α) : Factor Nat α :=
  if c.bayesian then .categorical dist d.probabilities
  else .categorical dist [1 - d.mean, d.mean]

def parameterFactors : List (Factor Nat α) :=
  c.graph.dists.zipIdx.map (fun entry => c.parameterFactor entry.2 entry.1)

def latentFactors : Except CompileFault (List (Factor Slot α)) :=
  if c.bayesian then
    c.latents.zipIdx.mapM (fun entry => do
      let (dist, d) ← c.priorOf entry.1
      return .bernoulli (c.latentSlot entry.2) (.parameter dist) d.supports)
  else .ok []

def controlOf (head : Nat) : Except CompileFault (Option Slot) :=
  match Arrival.position? c.latents head with
  | none => .ok none
  | some index =>
      if c.bayesian then .ok (some (c.latentSlot index))
      else do
        let (dist, _) ← c.priorOf head
        return some (.parameter dist)

structure Emitted (α : Type) where
  factors : List (Factor Slot α)
  next : Nat

/-- Emit the phony nodes and the factor of a derivation.  A control takes the room of one body
node. -/
def emitClause (connective : Connective) (e : Emitted α) (derivation : Nat × List Nat) :
    Except CompileFault (Emitted α) := do
  let control ← c.controlOf derivation.1
  let limit := if control.isSome then c.clauseLimit - 1 else c.clauseLimit
  let split := Splitting.ofBody connective c.clauseLimit limit e.next (derivation.2.map Slot.own)
  let head : Factor Slot α := .clause connective (.own derivation.1) control split.body
  return ⟨e.factors ++ split.factors ++ [head], split.next⟩

/-- The factor of a singleton: it draws from its parameter if it has one, and is true otherwise. -/
def singletonFactor (node : Nat) : Except CompileFault (Factor Slot α) :=
  match c.graph.distOf? node with
  | none => .ok (.constantTrue (.own node))
  | some _ => do
      let (dist, d) ← c.priorOf node
      let supports := if c.bayesian then d.supports else [0, 1]
      return .bernoulli (.own node) (.parameter dist) supports

def template : Except CompileFault (Emitted α) := do
  let latents ← c.latentFactors
  let sums ← c.graph.sums.foldlM (c.emitClause .any) ⟨latents, c.phonyBase⟩
  let clauses ← c.graph.prods.foldlM (c.emitClause .all) sums
  let singletons ← c.graph.singletons.mapM c.singletonFactor
  return { clauses with factors := clauses.factors ++ singletons }

end Lowering

variable {α : Type} [Scalar α]

def compile (graph : CausalGraph α) (repetitions : Nat) (bayesian : Bool) (clauseLimit : Nat) :
    Except CompileFault (FactorGraph α) :=
  if clauseLimit < 2 ∨ maxClauseLimit < clauseLimit then .error (.clauseLimit clauseLimit)
  else do
    let c : Lowering α := ⟨graph, bayesian, clauseLimit⟩
    let emitted ← c.template
    return {
      layout := {
        distCount := graph.distCount
        nodeCount := graph.nodeCount
        latents := c.latents
        phonyCount := emitted.next - c.phonyBase
        bayesian, repetitions }
      parameters := c.parameterFactors
      template := emitted.factors }

end FactorGraph

end DerivationBelief

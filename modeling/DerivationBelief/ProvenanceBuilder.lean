import DerivationBelief.ClausePruner
import DerivationBelief.FactFeed
import DerivationBelief.Provenance

/-!
# Building provenances

A builder collects rules, clauses, inputs and outputs in order of arrival and computes the
provenance of observed tuples: without pruning from all clauses that the observed tuples depend on,
with pruning from clauses without a cycle.  A tuple that a clause derives stops being an input when
the clause is added.
-/

namespace DerivationBelief

structure ProvenanceBuilder where
  name : String
  prune : Bool
  augment : Bool
  rules : List String
  clauses : List GroundClause
  inputs : List GroundTuple
  outputs : List GroundTuple
  computed : Option Provenance
deriving Repr

namespace ProvenanceBuilder

def new (name : String) (prune augment : Bool) : ProvenanceBuilder :=
  { name, prune, augment, rules := [], clauses := [], inputs := [], outputs := [],
    computed := none }

variable (b : ProvenanceBuilder)

def addRules (rules : List String) : ProvenanceBuilder :=
  { b with rules := Arrival.insertAll b.rules rules }

def addClause (c : GroundClause) : ProvenanceBuilder :=
  { b with
    inputs := Arrival.remove b.inputs c.head
    clauses := Arrival.insert b.clauses c }

def addClauses (clauses : List GroundClause) : ProvenanceBuilder :=
  clauses.foldl addClause b

def addInputs (tuples : List GroundTuple) : ProvenanceBuilder :=
  { b with inputs := Arrival.insertAll b.inputs tuples }

def addOutputs (tuples : List GroundTuple) : ProvenanceBuilder :=
  { b with outputs := Arrival.insertAll b.outputs tuples }

def ofFeed (name : String) (prune augment : Bool) (feed : FactFeed) : ProvenanceBuilder :=
  ((((new name prune augment).addRules feed.rules).addInputs feed.inputs).addClauses
    feed.clauses).addOutputs feed.outputs

def retained (observed : List GroundTuple) : List Nat :=
  if b.prune then
    let pruner := ClausePruner.ofClauses b.clauses b.inputs
    let pruner := if b.augment then pruner.augment else pruner
    pruner.activeClauses observed
  else backwardClosure b.clauses observed

def provenanceFor (observed : List GroundTuple) : Provenance :=
  let clauses := (b.retained observed).filterMap (fun c => b.clauses[c]?)
  let tuples := Arrival.distinct (clauses.flatMap (fun c => c.head :: c.bodyTuples))
  let inputs := b.inputs.filter (fun t => tuples.contains t)
  let outputs := b.outputs.filter (fun t => tuples.contains t && !b.inputs.contains t)
  Provenance.ofParts b.name tuples inputs outputs clauses b.rules

def computeFor (observed : List GroundTuple) : ProvenanceBuilder :=
  { b with computed := some (b.provenanceFor observed) }

def compute : ProvenanceBuilder :=
  b.computeFor b.outputs

def provenance : Except ProvenanceFault Provenance :=
  match b.computed with
  | some p => .ok p
  | none => .error (.notComputed b.name)

end ProvenanceBuilder

end DerivationBelief

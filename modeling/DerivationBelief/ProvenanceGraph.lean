import DerivationBelief.PriorTable
import DerivationBelief.Provenance

/-!
# Causal graphs of provenances

A clause of a provenance becomes a product over its body, a derived tuple a sum over the clauses
that derive it, and every other tuple a singleton.  Clauses and inputs may have priors, either each
of its own or shared by those with equal keys.
-/

namespace DerivationBelief

namespace PriorTable

variable {κ α : Type} [DecidableEq κ]

structure Keyed (κ α : Type) where
  table : PriorTable α
  keys : List (κ × Nat)

/-- Give a node the first distribution that was seen with its key. -/
def Keyed.assign (s : Keyed κ α) (node : String) (key : κ) (d : Distribution α) :
    Except GraphFault (Keyed κ α) :=
  match Arrival.get? s.keys key with
  | some dist => do return { s with table := ← s.table.tie node dist }
  | none =>
      let (table, dist) := s.table.add node d
      .ok ⟨table, Arrival.put s.keys key dist⟩

def ofIndependent (priors : List (String × Distribution α)) : PriorTable α :=
  priors.foldl (fun table entry => (table.add entry.1 entry.2).1) empty

def ofKeyed (priors : List (String × κ × Distribution α)) :
    Except GraphFault (PriorTable α) := do
  let keyed ← priors.foldlM
    (fun (s : Keyed κ α) entry => s.assign entry.1 entry.2.1 entry.2.2) ⟨empty, []⟩
  return keyed.table

end PriorTable

namespace Provenance

variable (p : Provenance)

def annotated {β : Type} (ofClause : GroundClause → Option β) (ofInput : GroundTuple → Option β) :
    List (String × β) :=
  p.clauses.zipIdx.filterMap (fun entry =>
    (ofClause entry.1).map (fun value => ((ProvenanceId.clause entry.2).text, value))) ++
  p.inputs.zipIdx.filterMap (fun entry =>
    (ofInput entry.1).map (fun value => ((ProvenanceId.input entry.2).text, value)))

def graphNodes : List String :=
  Arrival.distinct (p.clauses.zipIdx.flatMap (fun entry =>
    (ProvenanceId.clause entry.2).text ::
      (entry.1.head :: entry.1.bodyTuples).filterMap (fun t =>
        (p.tupleId? t).map ProvenanceId.text)))

def mayBeDerived (node : String) : Bool :=
  match ProvenanceId.readChars? node.toList with
  | some (.output _) => true
  | some (.hidden _) => true
  | _ => false

/-- The inputs, and the other tuples that no clause derives. -/
def graphSingletons : List String :=
  p.inputIds ++
    p.graphNodes.filter (fun node => mayBeDerived node && !Arrival.hasKey p.headToClauses node)

def graphWith {α : Type} (table : PriorTable α) : Except GraphFault (CausalGraph α) :=
  CausalGraph.buildWithPriors p.name p.graphNodes p.graphSingletons p.headToClauses p.clauseToBody
    table

def causalGraph {α : Type} (clausePrior : GroundClause → Option (Distribution α))
    (inputPrior : GroundTuple → Option (Distribution α)) : Except GraphFault (CausalGraph α) :=
  p.graphWith (PriorTable.ofIndependent (p.annotated clausePrior inputPrior))

def tiedCausalGraph {κ α : Type} [DecidableEq κ]
    (clausePrior : GroundClause → Option (κ × Distribution α))
    (inputPrior : GroundTuple → Option (κ × Distribution α)) :
    Except GraphFault (CausalGraph α) := do
  p.graphWith (← PriorTable.ofKeyed (p.annotated clausePrior inputPrior))

end Provenance

end DerivationBelief

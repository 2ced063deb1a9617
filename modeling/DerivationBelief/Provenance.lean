import DerivationBelief.ArrivalOrder
import DerivationBelief.GroundClause
import DerivationBelief.ProvenanceId

/-!
# Pruned provenances

A provenance holds the clauses that were retained for some observed tuples.  The tuples of these
clauses fall into inputs, outputs and hidden tuples, each numbered in order; the clauses are
numbered in order too.  The numbers give stable identifiers.
-/

namespace DerivationBelief

structure Provenance where
  name : String
  clauses : List GroundClause
  inputs : List GroundTuple
  outputs : List GroundTuple
  hidden : List GroundTuple
  tupleIds : List (GroundTuple × ProvenanceId)
  rules : List String
deriving DecidableEq, Repr

namespace Provenance

def numberTuples (ids : List (GroundTuple × ProvenanceId)) (name : Nat → ProvenanceId)
    (tuples : List GroundTuple) : List (GroundTuple × ProvenanceId) :=
  Arrival.putAll ids (tuples.zipIdx.map (fun entry => (entry.1, name entry.2)))

/-- The provenance of some clauses.  The mentioned tuples are those of the clauses; the ones that
are neither inputs nor outputs are hidden. -/
def ofParts (name : String) (mentioned inputs outputs : List GroundTuple)
    (clauses : List GroundClause) (rules : List String) : Provenance :=
  let visible := numberTuples (numberTuples [] .input inputs) .output outputs
  let hidden := mentioned.filter (fun t => !Arrival.hasKey visible t)
  { name, clauses, inputs, outputs, hidden
    tupleIds := numberTuples visible .hidden hidden
    rules }

variable (p : Provenance)

def tupleId? (t : GroundTuple) : Option ProvenanceId :=
  Arrival.get? p.tupleIds t

def tupleId (t : GroundTuple) : Except ProvenanceFault String :=
  match p.tupleId? t with
  | some id => .ok id.text
  | none => .error (.unknownTuple t.text)

def clauseId (k : Nat) : Except ProvenanceFault String :=
  if k < p.clauses.length then .ok (ProvenanceId.clause k).text
  else .error (.unknownId (ProvenanceId.clause k).text)

def tupleOf? : ProvenanceId → Option GroundTuple
  | .input k => p.inputs[k]?
  | .output k => p.outputs[k]?
  | .hidden k => p.hidden[k]?
  | .clause _ => none
  | .rule _ => none

def decodeTuple (id : String) : Except ProvenanceFault GroundTuple := do
  match p.tupleOf? (← ProvenanceId.read id) with
  | some t => .ok t
  | none => .error (.unknownId id)

def clauseOf? : ProvenanceId → Option GroundClause
  | .clause k => p.clauses[k]?
  | _ => none

def decodeClause (id : String) : Except ProvenanceFault GroundClause := do
  match p.clauseOf? (← ProvenanceId.read id) with
  | some c => .ok c
  | none => .error (.unknownId id)

def signMark (positive : Bool) : String :=
  if positive then "" else "NOT "

/-- A clause with its tuples encoded, such as `R3-D0 : O0=NOT I1,H2`. -/
def clauseDetail (k : Nat) : Except ProvenanceFault String := do
  match p.clauses[k]? with
  | none => .error (.unknownId (ProvenanceId.clause k).text)
  | some c =>
      let head ← p.tupleId c.head
      let body ← c.body.mapM (fun l => do return signMark l.positive ++ (← p.tupleId l.tuple))
      return s!"R{c.rule.toNat}-D{k} : " ++ signMark c.headPositive ++ head ++ "=" ++
        ",".intercalate body

def unfoldId (id : String) : Except ProvenanceFault String := do
  match ← ProvenanceId.read id with
  | .clause k => p.clauseDetail k
  | .rule _ => .ok id
  | _ => return id ++ ": " ++ (← p.decodeTuple id).text

def headToClauses : List (String × List String) :=
  p.clauses.zipIdx.foldl
    (fun table entry =>
      match p.tupleId? entry.1.head with
      | some head => Arrival.append table head.text (ProvenanceId.clause entry.2).text
      | none => table)
    []

def clauseToBody : List (String × List String) :=
  p.clauses.zipIdx.map (fun entry =>
    ((ProvenanceId.clause entry.2).text,
      entry.1.bodyTuples.filterMap (fun t => (p.tupleId? t).map ProvenanceId.text)))

def idsBelow (name : Nat → ProvenanceId) (count : Nat) : List String :=
  (List.range count).map (fun k => (name k).text)

def clauseIds : List String := idsBelow .clause p.clauses.length

def inputIds : List String := idsBelow .input p.inputs.length

def outputIds : List String := idsBelow .output p.outputs.length

def hiddenIds : List String := idsBelow .hidden p.hidden.length

end Provenance

end DerivationBelief

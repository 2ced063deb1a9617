import DerivationBelief.FactorGraphText
import DerivationBelief.VariableElimination

/-!
# Networks with exact answers

A network is loaded from the file of a factor graph.  It keeps the observed states and remembers the
beliefs it has computed, until an observation makes them stale.
-/

namespace DerivationBelief

structure SolverOptions (α : Type) where
  maxIterations : Nat
  maxSeconds : Nat
  tolerance : α
  estimationRounds : Nat
  maxTableEntries : Nat
deriving Repr

def SolverOptions.default {α : Type} [Scalar α] : SolverOptions α where
  maxIterations := 10000000
  maxSeconds := 10800
  tolerance := 1 / Scalar.ofCount 1000000
  estimationRounds := 500
  maxTableEntries := 4194304

structure ExactNetwork (α : Type) where
  model : TableNetwork α
  evidence : Evidence
  beliefs : List (Nat × List α)
  /-- The rounds of an estimation, and the seconds after which no other round begins. -/
  rounds : Nat
  seconds : Nat
  tolerance : α

namespace TableNetwork

variable {α : Type} [Scalar α]

def noteCard (label : String) (cards : Array Nat) (entry : Nat × Nat) :
    Except SolverFault (Array Nat) :=
  let extended := cards ++ Array.replicate (entry.1 + 1 - cards.size) 0
  let known := extended.getD entry.1 0
  if known ≠ 0 ∧ known ≠ entry.2 then
    .error (.malformed label 0 s!"variable {entry.1} has cardinality {known} and {entry.2}")
  else .ok (extended.setIfInBounds entry.1 entry.2)

def addFactor (label : String) (n : TableNetwork α) (entry : Factor Nat α × Nat) :
    Except SolverFault (TableNetwork α) := do
  let cards ← (entry.1.vars.zip entry.1.cards).foldlM (noteCard label) n.cards
  let table ← DenseTable.ofFactor n.limit label entry.2 entry.1
  return { n with tables := n.tables ++ [table], cards }

def ofFactors (label : String) (limit : Nat) (factors : List (Factor Nat α)) :
    Except SolverFault (TableNetwork α) :=
  factors.zipIdx.foldlM (addFactor label) ⟨[], #[], limit⟩

end TableNetwork

namespace ExactNetwork

variable {α : Type} [Scalar α]

def contentOf (tree : FileTree) (path : String) : Except SolverFault String :=
  match tree.read? path with
  | some text => .ok text
  | none => .error (.unreadable path)

def ofFactors (label : String) (options : SolverOptions α) (factors : List (Factor Nat α)) :
    Except SolverFault (ExactNetwork α) := do
  let model ← TableNetwork.ofFactors label options.maxTableEntries factors
  return ⟨model, [], [], options.estimationRounds, options.maxSeconds, options.tolerance⟩

def load [Numeral α] (tree : FileTree) (path : String) (options : SolverOptions α) :
    Except SolverFault (ExactNetwork α) := do
  ofFactors path options (← Factor.parseAll path (← contentOf tree path))

variable (n : ExactNetwork α)

def varCount : Nat :=
  n.model.cards.size

def observe (var : Nat) (value : Bool) : Except SolverFault (ExactNetwork α) := do
  let card ← n.model.cardOf var
  if card ≤ value.toNat then .error .inconsistentEvidence
  else return { n with evidence := Arrival.put n.evidence var value.toNat, beliefs := [] }

def reset : ExactNetwork α :=
  { n with evidence := [], beliefs := [] }

def propagate : Except SolverFault Unit := do
  let _ ← n.model.partition n.evidence
  return ()

def queryStates (var : Nat) : Except SolverFault (List α) × ExactNetwork α :=
  match Arrival.get? n.beliefs var with
  | some belief => (.ok belief, n)
  | none =>
      match n.model.belief n.evidence var with
      | .ok belief => (.ok belief, { n with beliefs := Arrival.put n.beliefs var belief })
      | .error fault => (.error fault, n)

def queryTruth (var : Nat) : Except SolverFault α × ExactNetwork α :=
  let (answer, next) := n.queryStates var
  (answer.map (fun belief => belief.getD 1 0), next)

end ExactNetwork

end DerivationBelief

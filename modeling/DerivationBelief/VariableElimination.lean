import DerivationBelief.DenseTable

/-!
# Variable elimination

The product of all tables, summed over all variables but one, is computed by eliminating one
variable after the other: the tables that mention it are multiplied, and the product is summed over
it.  The variable whose product has the smallest scope goes first.
-/

namespace DerivationBelief

/-- Tables with the cardinality of every variable, zero for a variable that no table mentions. -/
structure TableNetwork (α : Type) where
  tables : List (DenseTable α)
  cards : Array Nat
  limit : Nat

abbrev Evidence := List (Nat × Nat)

namespace TableNetwork

variable {α : Type} [Scalar α] (n : TableNetwork α)

def cardOf (var : Nat) : Except SolverFault Nat :=
  match n.cards[var]? with
  | some (card + 1) => .ok (card + 1)
  | _ => .error (.variableOutOfRange var n.cards.size)

def clamp (evidence : Evidence) (t : DenseTable α) : DenseTable α :=
  (evidence.filter (fun entry => t.mentions entry.1)).foldl
    (fun table entry => table.restrict entry.1 entry.2) t

def insertAscending (x : Nat) : List Nat → List Nat
  | [] => [x]
  | y :: ys => if x < y then x :: y :: ys else if x = y then y :: ys else y :: insertAscending x ys

def ascendingSet (numbers : List Nat) : List Nat :=
  numbers.foldl (fun found x => insertAscending x found) []

def scopeSize (tables : List (DenseTable α)) (var : Nat) : Nat :=
  let scope := ascendingSet ((tables.filter (fun t => t.mentions var)).flatMap DenseTable.vars)
  jointStates (scope.map (fun v => n.cards.getD v 1))

/-- The first variable with the smallest scope, with the size of its scope. -/
def cheapest (tables : List (DenseTable α)) : List Nat → Option (Nat × Nat)
  | [] => none
  | var :: vars =>
      let size := n.scopeSize tables var
      match cheapest tables vars with
      | none => some (var, size)
      | some other => some (if size ≤ other.2 then (var, size) else other)

def eliminateVar (tables : List (DenseTable α)) (var : Nat) :
    Except SolverFault (List (DenseTable α)) := do
  let touching := tables.filter (fun t => t.mentions var)
  let rest := tables.filter (fun t => !t.mentions var)
  let joined ← DenseTable.product touching n.limit
  return rest ++ [joined.sumOut var]

def eliminateAll : Nat → List Nat → List (DenseTable α) →
    Except SolverFault (List (DenseTable α))
  | 0, _, tables => .ok tables
  | fuel + 1, pending, tables =>
      match n.cheapest tables pending with
      | none => .ok tables
      | some (var, _) => do
          eliminateAll fuel (pending.erase var) (← n.eliminateVar tables var)

/-- The tables that are left when the evidence has been fixed and every variable but `keep` has
been eliminated. -/
def eliminate (evidence : Evidence) (keep : Option Nat) :
    Except SolverFault (List (DenseTable α)) :=
  let tables := n.tables.map (clamp evidence)
  let pending :=
    ascendingSet ((tables.flatMap DenseTable.vars).filter (fun v => some v ≠ keep))
  n.eliminateAll pending.length pending tables

/-- The total weight of all states that agree with the evidence, which has to be positive. -/
def partition (evidence : Evidence) : Except SolverFault α := do
  let left ← n.eliminate evidence none
  let joint ← DenseTable.product left n.limit
  let total := joint.total
  if Scalar.isPositive total then return total else .error .inconsistentEvidence

def belief (evidence : Evidence) (var : Nat) : Except SolverFault (List α) := do
  let card ← n.cardOf var
  match Arrival.get? evidence var with
  | some state => do
      let _ ← n.partition evidence
      return (List.range card).map (fun s => if s = state then 1 else 0)
  | none => do
      let left ← n.eliminate evidence (some var)
      let joint ← DenseTable.product left n.limit
      let values :=
        if joint.vars.isEmpty then List.replicate card (joint.value 0) else joint.values.toList
      let total := Scalar.sum values
      if Scalar.isPositive total then return values.map (· / total)
      else .error .inconsistentEvidence

end TableNetwork

end DerivationBelief

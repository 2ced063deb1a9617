import DerivationBelief.EstimationPlan
import DerivationBelief.EvidenceTable
import DerivationBelief.ExactNetwork

/-!
# Fitting parameters by expectation maximisation

Every row of a table of evidence gives beliefs over the parameters.  One round replaces each
parameter by the mean of its beliefs over the rows that the network can explain.  Rounds go on until
no parameter changes much, no row can be explained, or the rounds or the time is used up.
-/

namespace DerivationBelief

/-- The nanoseconds since the start of an estimation, as read in front of each of its rounds. -/
abbrev Clock := Nat → Nat

/-- A clock that goes on by one nanosecond from round to round. -/
def Clock.steady : Clock :=
  fun round => round + 1

/-- Whether a round begins later than so many seconds after the start. -/
def Clock.overtime (clock : Clock) (seconds round : Nat) : Bool :=
  decide (seconds * 1000000000 < clock round)

structure Expectation (α : Type) where
  sums : List (List α)
  used : Nat

namespace TableNetwork

variable {α : Type} [Scalar α]

def rowEvidence (vars : List Nat) (row : List (Option Bool)) : Evidence :=
  (vars.zip row).foldl
    (fun evidence entry =>
      match entry.2 with
      | some value => Arrival.put evidence entry.1 value.toNat
      | none => evidence)
    []

/-- Add the beliefs of a row.  A row that the network cannot explain is passed over. -/
def expectRow (n : TableNetwork α) (vars : List Nat) (params : List EstimatedFactor)
    (e : Expectation α) (row : List (Option Bool)) : Except SolverFault (Expectation α) :=
  match params.mapM (fun p => n.belief (rowEvidence vars row) p.var) with
  | .ok beliefs =>
      .ok ⟨e.sums.zipWith (fun sum belief => sum.zipWith (· + ·) belief) beliefs, e.used + 1⟩
  | .error .inconsistentEvidence => .ok e
  | .error fault => .error fault

def zeroSums (n : TableNetwork α) (params : List EstimatedFactor) : List (List α) :=
  params.map (fun p =>
    match n.tables[p.factor]? with
    | some table => List.replicate table.values.size 0
    | none => [])

def expect (n : TableNetwork α) (table : EvidenceTable) (params : List EstimatedFactor) :
    Except SolverFault (Expectation α) :=
  table.rows.foldlM (n.expectRow table.vars params) ⟨n.zeroSums params, 0⟩

structure Maximising (α : Type) where
  model : TableNetwork α
  change : α

def maximiseParam (used : Nat) (m : Maximising α) (entry : EstimatedFactor × List α) :
    Maximising α :=
  match m.model.tables[entry.1.factor]? with
  | none => m
  | some table =>
      let means := entry.2.map (fun sum => sum / Scalar.ofCount used)
      let old := table.values.toList
      let change := (means.zip old).foldl
        (fun change pair => Scalar.larger change (Scalar.magnitude (pair.1 - pair.2))) m.change
      let values := (means ++ old.drop means.length).toArray
      { model := { m.model with
          tables := m.model.tables.set entry.1.factor { table with values } }
        change }

def maximise (n : TableNetwork α) (params : List EstimatedFactor) (e : Expectation α) :
    Maximising α :=
  (params.zip e.sums).foldl (maximiseParam e.used) ⟨n, 0⟩

/-- At most the given number of rounds, and none from the one on that finds the time used up.  The
network keeps the rounds in front of a fault. -/
def fitRounds (tolerance : α) (table : EvidenceTable) (params : List EstimatedFactor) :
    (Nat → Bool) → Nat → TableNetwork α → Except SolverFault Unit × TableNetwork α
  | _, 0, n => (.ok (), n)
  | overtime, rounds + 1, n =>
      if overtime 0 then (.ok (), n)
      else
        match n.expect table params with
        | .error fault => (.error fault, n)
        | .ok e =>
            if e.used = 0 then (.ok (), n)
            else
              let m := n.maximise params e
              if Scalar.less m.change tolerance then (.ok (), m.model)
              else
                fitRounds tolerance table params (fun round => overtime (round + 1)) rounds m.model

end TableNetwork

namespace ExactNetwork

variable {α : Type} [Scalar α] (n : ExactNetwork α)

def checkParams (params : List EstimatedFactor) : Except SolverFault Unit :=
  params.forM (fun p =>
    match n.model.tables[p.factor]? with
    | some table =>
        if table.vars = [p.var] then .ok ()
        else .error (.factorOutOfRange p.factor n.model.tables.length)
    | none => .error (.factorOutOfRange p.factor n.model.tables.length))

def checkVars (vars : List Nat) : Except SolverFault Unit :=
  vars.forM (fun var => do
    let _ ← n.model.cardOf var
    return ())

def readFitting (tree : FileTree) (tablePath planPath : String) :
    Except SolverFault (EvidenceTable × List EstimatedFactor) := do
  let table ← EvidenceTable.parse tablePath (← contentOf tree tablePath)
  let params ← EstimatedFactor.readPlan planPath (← contentOf tree planPath)
  n.checkParams params
  n.checkVars table.vars
  return (table, params)

/-- Fit parameters to the rows of a table.  The evidence of the network plays no part and is
kept. -/
def fit (tree : FileTree) (tablePath planPath : String) (clock : Clock := .steady) :
    Except SolverFault Unit × ExactNetwork α :=
  match n.readFitting tree tablePath planPath with
  | .error fault => (.error fault, n)
  | .ok (table, params) =>
      let (result, model) :=
        TableNetwork.fitRounds n.tolerance table params (clock.overtime n.seconds) n.rounds n.model
      (result, { n with model, beliefs := [] })

end ExactNetwork

end DerivationBelief

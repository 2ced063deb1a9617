import DerivationBelief.FactorGraphText

/-!
# Plans of estimation

A plan names the factors to estimate, each with the variable that it is a distribution over.  Its
file has a number of steps; every step has a number of blocks, and every block names an estimator
and the factors that share it.  A plan is written as one step with a block for every factor.
-/

namespace DerivationBelief

structure EstimatedFactor where
  factor : Nat
  var : Nat
deriving DecidableEq, Repr

namespace EstimatedFactor

def estimator : List Char := "CondProbEstimation".toList

def estimatorLine : List Char := estimator ++ " [target_dim=2,total_dim=2]".toList

def planLines (params : List Nat) : List (List Char) :=
  [['1'], [], Text.natDigits params.length] ++
    params.flatMap (fun param => [estimatorLine, ['1'], numbersLine '\t' [param, param]])

def planText (params : List Nat) : String :=
  String.ofList (Text.unlines (planLines params))

def writePlan (params : List Nat) (tree : FileTree) (path : String) :
    Except CompileFault FileTree :=
  match tree.write? path (planText params) with
  | some next => .ok next
  | none => .error (.unwritable path)

def readShared (r : LineReader) : Except SolverFault (EstimatedFactor × LineReader) := do
  let (ids, line, rest) ← r.numbers
  match ids with
  | [factor, var] => return (⟨factor, var⟩, rest)
  | _ => r.faultAt line "expected 'factor<TAB>var'"

def readBlock (r : LineReader) : Except SolverFault (List EstimatedFactor × LineReader) := do
  let (line, rest) ← r.line
  if estimator.isPrefixOf line.text then do
    let (count, rest) ← rest.number
    LineReader.repeated readShared count rest
  else r.faultAt line.number ("unsupported estimator '" ++ String.ofList line.text ++ "'")

def readStep (r : LineReader) : Except SolverFault (List EstimatedFactor × LineReader) := do
  let (count, rest) ← r.number
  let (blocks, rest) ← LineReader.repeated readBlock count rest
  return (blocks.flatten, rest)

def readPlan (label text : String) : Except SolverFault (List EstimatedFactor) := do
  let (count, r) ← (LineReader.ofText label text).number
  let (steps, _) ← LineReader.repeated readStep count r
  return steps.flatten

end EstimatedFactor

end DerivationBelief

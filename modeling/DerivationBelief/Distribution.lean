import DerivationBelief.Faults
import DerivationBelief.StableOrder

/-!
# Discrete distributions over the unit interval

A distribution lists its support in increasing order together with the probability of each value.
It is built from values with weights: equal values are merged, and the weights are divided by their
sum.
-/

namespace DerivationBelief

structure Distribution (α : Type) where
  supports : List α
  probabilities : List α
deriving Repr

namespace Distribution

variable {α : Type} [Scalar α]

def epsilon : α :=
  1 / Scalar.ofCount 1024

/-- Divide weights by their sum.  The sum must be positive and no weight negative or infinite. -/
def normalise (weights : List α) : Except (DistributionFault α) (List α) :=
  let total := Scalar.sum weights
  if !Scalar.isPositive total || weights.any (fun w => Scalar.less w 0 || !Scalar.isFinite w) then
    .error .zeroMass
  else .ok (weights.map (· / total))

/-- Add a value with its weight behind merged ones: a value equal to the last one adds to its
weight. -/
def mergeNext (merged : List (α × α)) (entry : α × α) : List (α × α) :=
  match merged.getLast? with
  | some (value, weight) =>
      if value == entry.1 then merged.dropLast ++ [(value, weight + entry.2)]
      else merged ++ [entry]
  | none => [entry]

def mergeEqual (entries : List (α × α)) : List (α × α) :=
  (sortBy (fun a b => Scalar.sortsBefore a.1 b.1) entries).foldl mergeNext []

def withWeights (values weights : List α) : Except (DistributionFault α) (Distribution α) :=
  if values.length ≠ weights.length then
    .error (.weightCount values.length weights.length)
  else if values.isEmpty then .error .emptySupport
  else
    match values.find? (fun value => !Scalar.inUnit value) with
    | some value => .error (.supportOutOfRange value)
    | none => do
        let merged := mergeEqual (values.zip weights)
        let probabilities ← normalise (merged.map Prod.snd)
        return ⟨merged.map Prod.fst, probabilities⟩

def ofValues (values : List α) : Except (DistributionFault α) (Distribution α) :=
  withWeights values (values.map (fun _ => 1))

def pointMass (value : α) : Except (DistributionFault α) (Distribution α) :=
  ofValues [value]

variable (d : Distribution α)

def entries : List (α × α) :=
  d.supports.zip d.probabilities

def probability (value : α) : α :=
  match d.supports.findIdx? (· == value) with
  | some place => d.probabilities.getD place 0
  | none => 0

def mean : α :=
  Scalar.sum (d.entries.map (fun entry => entry.1 * entry.2))

def reweigh (weights : List α) : Except (DistributionFault α) (Distribution α) :=
  if weights.length ≠ d.supports.length then
    .error (.weightCount d.supports.length weights.length)
  else do
    return { d with probabilities := ← normalise weights }

def agrees (other : Distribution α) : Bool :=
  d.supports == other.supports && d.probabilities == other.probabilities

variable [Numeral α]

def text : String :=
  "Cat[" ++
    ";".intercalate
      (d.entries.map (fun entry =>
        Numeral.pointedText entry.1 ++ ":" ++ Numeral.hundredthsText entry.2)) ++
    "]"

end Distribution

end DerivationBelief

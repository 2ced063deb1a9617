import DerivationBelief.Distribution
import DerivationBelief.JsonWriting

/-!
# Stored distributions

A distribution is stored as a record of its support and its weights, which are taken as they are:
what was stored is not normalised again, and its support is not checked.  A number that is not
finite has no stored form: null stands in its place, and such a record cannot be read.
-/

namespace DerivationBelief.Distribution

variable {α : Type} [Numeral α]

def storedNumber? : Json → Option α
  | .number literal => Numeral.read? literal
  | _ => none

def storedNumbers? (value : Json) : Option (List α) := do
  (← value.asArray?).mapM storedNumber?

def ofStored? (value : Json) : Option (Distribution α) := do
  match ← value.fields? ["supports", "weights"] with
  | [some supports, some weights] =>
      return ⟨← storedNumbers? supports, ← storedNumbers? weights⟩
  | _ => none

def toStoredNumber [Scalar α] (x : α) : Json :=
  if Scalar.isFinite x then .number (Numeral.settingText x).toList else .null

def toStored [Scalar α] (d : Distribution α) : Json :=
  .object [("supports", .ofList toStoredNumber d.supports),
    ("weights", .ofList toStoredNumber d.probabilities)]

end DerivationBelief.Distribution

import DerivationBelief.Faults
import DerivationBelief.UnsignedNumeral

/-!
# Identifiers of a provenance

Tuples, clauses and rules of a provenance are named by a letter and a number: `I` for inputs, `O`
for outputs, `H` for hidden tuples, `D` for clauses and `R` for rules.
-/

namespace DerivationBelief

inductive ProvenanceId where
  | input (number : Nat)
  | output (number : Nat)
  | hidden (number : Nat)
  | clause (number : Nat)
  | rule (number : Nat)
deriving DecidableEq, Repr

namespace ProvenanceId

def isTuple : ProvenanceId → Bool
  | .input _ => true
  | .output _ => true
  | .hidden _ => true
  | .clause _ => false
  | .rule _ => false

def chars : ProvenanceId → List Char
  | .input k => 'I' :: Text.natDigits k
  | .output k => 'O' :: Text.natDigits k
  | .hidden k => 'H' :: Text.natDigits k
  | .clause k => 'D' :: Text.natDigits k
  | .rule k => 'R' :: Text.natDigits k

def text (id : ProvenanceId) : String :=
  String.ofList id.chars

def ofLetter? : Char → Option (Nat → ProvenanceId)
  | 'I' => some .input
  | 'O' => some .output
  | 'H' => some .hidden
  | 'D' => some .clause
  | 'R' => some .rule
  | _ => none

/-- Leading zeros are allowed, a sign is not; the number fits a 64-bit field. -/
def readChars? : List Char → Option ProvenanceId
  | [] => none
  | letter :: digits => do
      let number ← (Text.readDigits? digits).filter (· < Text.word64)
      return (← ofLetter? letter) number

def read (text : String) : Except ProvenanceFault ProvenanceId :=
  match readChars? text.toList with
  | some id => .ok id
  | none => .error (.unknownId text)

end ProvenanceId

end DerivationBelief

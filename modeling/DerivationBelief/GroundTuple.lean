import DerivationBelief.BlankText
import DerivationBelief.Faults
import DerivationBelief.UnsignedNumeral

/-!
# Ground tuples

A ground tuple is a relation name with a list of domain indices.  It is written as the name and the
indices in parentheses, separated by commas.  Reading allows blanks around the tuple and around
each index, and a plus sign in front of an index.
-/

namespace DerivationBelief

structure GroundTuple where
  relation : String
  attributes : List UInt32
deriving DecidableEq, Repr

namespace GroundTuple

def arity (t : GroundTuple) : Nat :=
  t.attributes.length

def chars (t : GroundTuple) : List Char :=
  t.relation.toList ++ '(' ::
    ([','].intercalate (t.attributes.map (fun a => Text.natDigits a.toNat)) ++ [')'])

/-- The written form, such as `R(2,3)`. -/
def text (t : GroundTuple) : String :=
  String.ofList t.chars

def readAttribute? (cs : List Char) : Option UInt32 :=
  (Text.readBelow? Text.word32 (Text.trim cs)).map UInt32.ofNat

def readAttributes? (inner : List Char) : Option (List UInt32) :=
  if (Text.trim inner).isEmpty then some []
  else (Text.splitAt ',' inner).mapM readAttribute?

/-- The relation in front of the first opening parenthesis and the text behind it, up to a closing
parenthesis at the very end. -/
def readChars? (cs : List Char) : Option GroundTuple :=
  let trimmed := Text.trim cs
  let relation := trimmed.takeWhile (· ≠ '(')
  match trimmed.dropWhile (· ≠ '('), relation with
  | [], _ => none
  | _, [] => none
  | _ :: rest, _ =>
      if rest.getLast? = some ')' then
        (readAttributes? rest.dropLast).map (fun attributes => ⟨String.ofList relation, attributes⟩)
      else none

def read (input : String) : Except ProvenanceFault GroundTuple :=
  match readChars? input.toList with
  | some t => .ok t
  | none => .error (.malformedTuple input)

/-- Order of index lists: the first difference decides, a shorter list comes first. -/
def attributesBefore : List UInt32 → List UInt32 → Bool
  | [], _ => true
  | _ :: _, [] => false
  | a :: as, b :: bs => if a = b then attributesBefore as bs else a < b

def before (s t : GroundTuple) : Bool :=
  if s.relation = t.relation then attributesBefore s.attributes t.attributes
  else decide (s.relation < t.relation)

end GroundTuple

end DerivationBelief

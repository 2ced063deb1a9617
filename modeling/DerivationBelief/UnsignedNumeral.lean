/-!
# Unsigned decimal numerals

A numeral is a nonempty run of ASCII digits, with or without a plus sign in front.  Leading zeros
are allowed; a numeral whose value does not fit below the bound of the field it is read for is
rejected.
-/

namespace DerivationBelief.Text

def digitValue? (c : Char) : Option Nat :=
  if '0' ≤ c ∧ c ≤ '9' then some (c.toNat - '0'.toNat) else none

def isDigit (c : Char) : Bool :=
  (digitValue? c).isSome

def digitsValue? : Nat → List Char → Option Nat
  | value, [] => some value
  | value, c :: cs => do
      let digit ← digitValue? c
      digitsValue? (10 * value + digit) cs

def readDigits? (cs : List Char) : Option Nat :=
  if cs.isEmpty then none else digitsValue? 0 cs

def readBelow? (bound : Nat) (cs : List Char) : Option Nat :=
  let digits := match cs with
    | '+' :: rest => rest
    | rest => rest
  (readDigits? digits).filter (· < bound)

def word32 : Nat := Nat.pow 2 32

def word64 : Nat := Nat.pow 2 64

def natDigits (n : Nat) : List Char :=
  n.repr.toList

end DerivationBelief.Text

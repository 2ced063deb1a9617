/-!
# Numbers that probabilities are computed with

Every definition of the library that multiplies or adds probabilities is stated for an arbitrary
type of numbers.  Machine numbers run the program; exact fractions read the same definitions as
statements about probabilities.  A sum is a left fold, so that the result of a sum of machine
numbers is fixed by the order of its terms.
-/

namespace DerivationBelief

class Scalar (α : Type) extends Zero α, One α, Add α, Sub α, Mul α, Div α, BEq α where
  /-- The sum of no terms.  It may differ from zero in sign only. -/
  emptySum : α
  /-- Strictly less; a value that is no number is less than nothing. -/
  less : α → α → Bool
  /-- At most; a value that is no number is at most nothing. -/
  atMost : α → α → Bool
  /-- Neither infinite nor undefined. -/
  isFinite : α → Bool
  /-- A total preorder that sorts the values, refining `atMost` on numbers. -/
  sortsBefore : α → α → Bool
  /-- The least natural number that is not below the value. -/
  ceiling : α → Nat
  /-- The number nearest to a natural number. -/
  ofCount : Nat → α

class Numeral (α : Type) where
  /-- The shortest text that reads back to the value. -/
  text : α → String
  /-- The shortest text again, but a whole number is written out exactly with one decimal place. -/
  pointedText : α → String
  /-- The text in settings files: the shortest text, with a point and a zero for a whole number. -/
  settingText : α → String
  /-- The value rounded to two decimal places. -/
  hundredthsText : α → String
  read? : List Char → Option α

namespace Scalar

variable {α : Type} [Scalar α]

def sum (terms : List α) : α :=
  terms.foldl (· + ·) emptySum

def product (factors : List α) : α :=
  factors.foldl (· * ·) 1

/-- The nearest value of the unit interval.  A value that is no number stays as it is. -/
def clampUnit (x : α) : α :=
  if less x 0 then 0 else if less 1 x then 1 else x

def inUnit (x : α) : Bool :=
  atMost 0 x && atMost x 1

def clamp (low high x : α) : α :=
  if less x low then low else if less high x then high else x

def larger (x y : α) : α :=
  if less x y then y else if x == x then x else y

def magnitude (x : α) : α :=
  if less x 0 then 0 - x else x

def isPositive (x : α) : Bool :=
  less 0 x

end Scalar

/-- The position of a double among all doubles: negative values below positive ones, a negative
zero below a positive one.  A value that is no number comes first. -/
def doubleRank (x : Float) : Int :=
  if x.isNaN then -(Nat.pow 2 64 : Int)
  else
    let bits := x.toBits.toNat
    let signBit := Nat.pow 2 63
    if bits < signBit then (bits : Int) else -((bits - signBit : Nat) : Int) - 1

instance : Scalar Float where
  zero := 0.0
  one := 1.0
  emptySum := -0.0
  less x y := decide (x < y)
  atMost x y := decide (x ≤ y)
  isFinite x := x.isFinite
  sortsBefore x y := decide (doubleRank x ≤ doubleRank y)
  ceiling x := x.ceil.toUInt64.toNat
  ofCount n := Float.ofNat n

end DerivationBelief

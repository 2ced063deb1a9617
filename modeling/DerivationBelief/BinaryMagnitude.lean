/-!
# Magnitudes of doubles

The magnitude of a finite double is `significand * 2 ^ exponent`.  The reals that round to it form
an interval around it, which reaches half way to the neighbouring magnitudes; the ends belong to
the interval exactly when the significand is even.  All comparisons with decimal fractions are
carried out on natural numbers.
-/

namespace DerivationBelief.Decimal

structure Magnitude where
  significand : Nat
  exponent : Int
  /-- The neighbour below is half as far away as the neighbour above. -/
  closerBelow : Bool
deriving DecidableEq, Repr

def Magnitude.ofBits (bits : Nat) : Magnitude :=
  let field : Nat := bits / Nat.pow 2 52 % Nat.pow 2 11
  let fraction : Nat := bits % Nat.pow 2 52
  if field = 0 then ⟨fraction, -1074, false⟩
  else ⟨Nat.pow 2 52 + fraction, (field : Int) - 1075, decide (fraction = 0 ∧ 1 < field)⟩

def signOfBits (bits : Nat) : Bool :=
  bits / Nat.pow 2 63 % 2 = 1

structure Fraction where
  coefficient : Nat
  exponent : Int
deriving DecidableEq, Repr

def compareScaled (a : Nat) (i : Int) (b : Nat) (j : Int) : Ordering :=
  compare (a * Nat.pow 10 i.toNat * Nat.pow 2 (-j).toNat)
    (b * Nat.pow 2 j.toNat * Nat.pow 10 (-i).toNat)

/-- Whether a decimal fraction lies among the reals that round to the magnitude. -/
def Magnitude.isReadFrom (x : Magnitude) (d : Fraction) : Bool :=
  let low := if x.closerBelow then 4 * x.significand - 1 else 4 * x.significand - 2
  let high := 4 * x.significand + 2
  let closed := x.significand % 2 = 0
  let atLow := compareScaled d.coefficient d.exponent low (x.exponent - 2)
  let atHigh := compareScaled d.coefficient d.exponent high (x.exponent - 2)
  (atLow = .gt || (closed && atLow = .eq)) && (atHigh = .lt || (closed && atHigh = .eq))

def Magnitude.wholeUnits (x : Magnitude) (i : Int) : Nat :=
  x.significand * Nat.pow 2 x.exponent.toNat * Nat.pow 10 (-i).toNat /
    (Nat.pow 2 (-x.exponent).toNat * Nat.pow 10 i.toNat)

end DerivationBelief.Decimal

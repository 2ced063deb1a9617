import DerivationBelief.BinaryMagnitude

/-!
# Decimal digits of a double

Two selections of digits.  The shortest decimal fraction that reads back to a magnitude is found by
trying grids of growing fineness: of the two points of a grid next to the magnitude, one that reads
back is taken, the closer of two, the upper one when both are equally close.  A fixed number of
places rounds the exact binary value, a half going to the even neighbour.
-/

namespace DerivationBelief.Decimal

/-- The least `k` with `x < 10 ^ k`, for a magnitude that is not zero, searched upwards from a
lower bound that the binary logarithm gives. -/
def Magnitude.decimalScale (x : Magnitude) : Int :=
  let logarithm := (x.significand.log2 : Int) + x.exponent
  let start := Int.fdiv (logarithm * 30103) 100000 - 1
  let candidates := [start, start + 1, start + 2, start + 3]
  (candidates.find? (fun k => compareScaled 1 k x.significand x.exponent = .gt)).getD (start + 4)

/-- The point of the grid of multiples of `10 ^ unit` that reads back to the magnitude. -/
def Magnitude.onGrid? (x : Magnitude) (unit : Int) : Option Fraction :=
  let below : Fraction := ⟨x.wholeUnits unit, unit⟩
  let above : Fraction := ⟨x.wholeUnits unit + 1, unit⟩
  match x.isReadFrom below, x.isReadFrom above with
  | true, true =>
      if compareScaled (2 * below.coefficient + 1) unit x.significand (x.exponent + 1) = .gt then
        some below
      else some above
  | true, false => some below
  | false, true => some above
  | false, false => none

def Magnitude.firstGrid? (x : Magnitude) (scale : Int) : List Nat → Option Fraction
  | [] => none
  | digits :: more =>
      match x.onGrid? (scale - digits) with
      | some fraction => some fraction
      | none => x.firstGrid? scale more

def Magnitude.exactFraction (x : Magnitude) : Fraction :=
  ⟨x.significand * Nat.pow 2 x.exponent.toNat * Nat.pow 5 (-x.exponent).toNat,
    -((-x.exponent).toNat : Int)⟩

def stripZeros : Nat → Fraction → Fraction
  | 0, d => d
  | fuel + 1, d =>
      if d.coefficient ≠ 0 ∧ d.coefficient % 10 = 0 then
        stripZeros fuel ⟨d.coefficient / 10, d.exponent + 1⟩
      else d

/-- The shortest decimal fraction that reads back to the magnitude.  Seventeen digits always
suffice; were none found, the exact value would be taken. -/
def Magnitude.shortest (x : Magnitude) : Fraction :=
  if x.significand = 0 then ⟨0, 0⟩
  else
    let found := (x.firstGrid? x.decimalScale ((List.range 17).map (· + 1))).getD x.exactFraction
    stripZeros 20 found

/-- A quotient rounded to the nearest whole number, a half to the even one. -/
def roundHalfEven (numerator denominator : Nat) : Nat :=
  let quotient := numerator / denominator
  let remainder := numerator % denominator
  if 2 * remainder < denominator then quotient
  else if 2 * remainder > denominator then quotient + 1
  else if quotient % 2 = 0 then quotient
  else quotient + 1

def Magnitude.roundToPlaces (x : Magnitude) (places : Nat) : Nat :=
  roundHalfEven (x.significand * Nat.pow 2 x.exponent.toNat * Nat.pow 10 places)
    (Nat.pow 2 (-x.exponent).toNat)

end DerivationBelief.Decimal

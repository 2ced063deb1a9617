import DerivationBelief.Scalar
import DerivationBelief.DecimalDigits
import DerivationBelief.UnsignedNumeral

/-!
# Written numbers

Numbers are written positionally, never with an exponent.  Reading accepts a sign, the words for
the infinite and the undefined value in any case, and decimal digits with an optional point and an
optional exponent; the value is the nearest double.
-/

namespace DerivationBelief.Decimal

structure Spelling where
  pointZero : Bool
  undefinedText : String
  infiniteText : String

def plainSpelling : Spelling := ⟨false, "NaN", "inf"⟩

def settingsSpelling : Spelling := ⟨true, "nan", "inf"⟩

def positional (pointZero : Bool) (d : Fraction) : List Char :=
  let digits := Text.natDigits d.coefficient
  if 0 ≤ d.exponent then
    digits ++ List.replicate (if d.coefficient = 0 then 0 else d.exponent.toNat) '0' ++
      (if pointZero then ['.', '0'] else [])
  else
    let places := (-d.exponent).toNat
    let padded := List.replicate (places + 1 - digits.length) '0' ++ digits
    padded.take (padded.length - places) ++ '.' :: padded.drop (padded.length - places)

def Spelling.render (s : Spelling) (x : Float) (digits : Magnitude → List Char) : String :=
  if x.isNaN then s.undefinedText
  else
    let bits := x.toBits.toNat
    let sign := if signOfBits bits then "-" else ""
    if x.isInf then sign ++ s.infiniteText
    else sign ++ String.ofList (digits (Magnitude.ofBits bits))

def Spelling.shortestText (s : Spelling) (x : Float) : String :=
  s.render x (fun m => positional s.pointZero m.shortest)

def Spelling.placesText (s : Spelling) (places : Nat) (x : Float) : String :=
  s.render x (fun m => positional false ⟨m.roundToPlaces places, -(places : Int)⟩)

def Magnitude.isWhole (m : Magnitude) : Bool :=
  m.significand % Nat.pow 2 (-m.exponent).toNat = 0

/-- The shortest text of a number with a fractional part; a whole number is written out exactly,
with one decimal place. -/
def Spelling.pointedText (s : Spelling) (x : Float) : String :=
  if (Magnitude.ofBits x.toBits.toNat).isWhole then s.placesText 1 x else s.shortestText x

/-- The nearest double to `coefficient * 10 ^ exponent`.  Beyond the exponents of doubles the value
is infinite or zero whatever the further digits are. -/
def nearestDouble (coefficient : Nat) (exponent : Int) : Float :=
  let leading := (Text.natDigits coefficient).length + exponent
  if coefficient = 0 then 0.0
  else if leading > 400 then 1.0 / 0.0
  else if leading < -400 then 0.0
  else Float.ofScientific coefficient (exponent < 0) exponent.natAbs

def readExponent? : List Char → Option Int
  | [] => some 0
  | mark :: rest =>
      if mark = 'e' ∨ mark = 'E' then
        match rest with
        | '+' :: digits => (Text.readDigits? digits).map (fun n => (n : Int))
        | '-' :: digits => (Text.readDigits? digits).map (fun n => -(n : Int))
        | digits => (Text.readDigits? digits).map (fun n => (n : Int))
      else none

def readUnsigned? (cs : List Char) : Option Float := do
  let whole := cs.takeWhile Text.isDigit
  let afterWhole := cs.dropWhile Text.isDigit
  let (places, afterPlaces) := match afterWhole with
    | '.' :: rest => (rest.takeWhile Text.isDigit, rest.dropWhile Text.isDigit)
    | rest => ([], rest)
  let coefficient ← Text.readDigits? (whole ++ places)
  let exponent ← readExponent? afterPlaces
  return nearestDouble coefficient (exponent - places.length)

def readWord? (cs : List Char) : Option Float :=
  match String.ofList (cs.map Char.toLower) with
  | "inf" => some (1.0 / 0.0)
  | "infinity" => some (1.0 / 0.0)
  | "nan" => some (0.0 / 0.0)
  | _ => none

/-- The double of a written number.  Blanks are not allowed. -/
def readDouble? (cs : List Char) : Option Float :=
  let readMagnitude? (rest : List Char) := readUnsigned? rest <|> readWord? rest
  match cs with
  | '+' :: rest => readMagnitude? rest
  | '-' :: rest => (readMagnitude? rest).map (fun x => -x)
  | rest => readMagnitude? rest

end DerivationBelief.Decimal

namespace DerivationBelief

instance : Numeral Float where
  text := Decimal.plainSpelling.shortestText
  pointedText := Decimal.plainSpelling.pointedText
  settingText := Decimal.settingsSpelling.shortestText
  hundredthsText := Decimal.plainSpelling.placesText 2
  read? := Decimal.readDouble?

end DerivationBelief

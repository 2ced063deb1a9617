import DerivationBelief.DecimalText
import DerivationBelief.TomlValue

/-!
# Strings, numbers and moments of TOML

Readers for values that hold no other values.  A reader takes the value at the front of a text and
leaves the rest.
-/

namespace DerivationBelief.Toml

def isBlank (c : Char) : Bool :=
  c = ' ' || c = '\t'

def skipBlanks (cs : List Char) : List Char :=
  cs.dropWhile isBlank

def isPlain (c : Char) : Bool :=
  c = '\t' || (0x20 ≤ c.toNat && c.toNat ≠ 0x7F)

def newline? : List Char → Option (List Char)
  | '\n' :: rest => some rest
  | '\r' :: '\n' :: rest => some rest
  | _ => none

section Strings

def hexDigit? (c : Char) : Option Nat :=
  if '0' ≤ c ∧ c ≤ '9' then some (c.toNat - 48)
  else if 'a' ≤ c ∧ c ≤ 'f' then some (c.toNat - 87)
  else if 'A' ≤ c ∧ c ≤ 'F' then some (c.toNat - 55)
  else none

def codePoint? (count : Nat) (cs : List Char) : Option (Char × List Char) :=
  let digits := cs.take count
  if digits.length < count then none
  else do
    let number ← digits.foldlM (fun value c => (hexDigit? c).map (16 * value + ·)) 0
    if number < 0xD800 ∨ (0xDFFF < number ∧ number < 0x110000) then
      return (Char.ofNat number, cs.drop count)
    else none

def escaped? : List Char → Option (Char × List Char)
  | 'b' :: rest => some ('\x08', rest)
  | 't' :: rest => some ('\t', rest)
  | 'n' :: rest => some ('\n', rest)
  | 'f' :: rest => some ('\x0c', rest)
  | 'r' :: rest => some ('\r', rest)
  | '"' :: rest => some ('"', rest)
  | '\\' :: rest => some ('\\', rest)
  | 'u' :: rest => codePoint? 4 rest
  | 'U' :: rest => codePoint? 8 rest
  | _ => none

def readBasic : Nat → List Char → Option (List Char × List Char)
  | 0, _ => none
  | fuel + 1, cs =>
      match cs with
      | [] => none
      | '"' :: rest => some ([], rest)
      | '\\' :: rest => do
          let (c, rest) ← escaped? rest
          let (body, rest) ← readBasic fuel rest
          return (c :: body, rest)
      | c :: rest =>
          if isPlain c then do
            let (body, rest) ← readBasic fuel rest
            return (c :: body, rest)
          else none

def readLiteral : List Char → Option (List Char × List Char)
  | [] => none
  | '\'' :: rest => some ([], rest)
  | c :: rest =>
      if isPlain c then do
        let (body, rest) ← readLiteral rest
        return (c :: body, rest)
      else none

def skipLineEnds : Nat → List Char → List Char
  | 0, cs => cs
  | fuel + 1, cs =>
      let rest := skipBlanks cs
      match newline? rest with
      | some next => skipLineEnds fuel next
      | none => rest

/-- The quotes that end a string of several lines: three, behind at most two of its own. -/
def closing? (quote : Char) (cs : List Char) : Option (List Char × List Char) :=
  let count := (cs.takeWhile (· = quote)).length
  if count < 3 then none
  else
    let own := min (count - 3) 2
    some (List.replicate own quote, cs.drop (own + 3))

def readLines (quote : Char) (escapes : Bool) : Nat → List Char → Option (List Char × List Char)
  | 0, _ => none
  | fuel + 1, cs =>
      match closing? quote cs with
      | some found => some found
      | none =>
          match newline? cs with
          | some rest => do
              let (body, rest) ← readLines quote escapes fuel rest
              return ('\n' :: body, rest)
          | none =>
              match cs with
              | [] => none
              | c :: rest =>
                  if escapes ∧ c = '\\' then
                    match newline? (skipBlanks rest) with
                    | some next => readLines quote escapes fuel (skipLineEnds fuel next)
                    | none => do
                        let (c, rest) ← escaped? rest
                        let (body, rest) ← readLines quote escapes fuel rest
                        return (c :: body, rest)
                  else if isPlain c then do
                    let (body, rest) ← readLines quote escapes fuel rest
                    return (c :: body, rest)
                  else none

/-- A line end right behind the opening quotes does not belong to the string. -/
def skipFirstLineEnd (cs : List Char) : List Char :=
  (newline? cs).getD cs

def readLineString? : List Char → Option (String × List Char)
  | '"' :: rest => (readBasic (rest.length + 1) rest).map (fun r => (String.ofList r.1, r.2))
  | '\'' :: rest => (readLiteral rest).map (fun r => (String.ofList r.1, r.2))
  | _ => none

def readString? (cs : List Char) : Option (String × List Char) :=
  let several (quote : Char) (escapes : Bool) (rest : List Char) : Option (String × List Char) :=
    let body := skipFirstLineEnd rest
    (readLines quote escapes (body.length + 1) body).map (fun r => (String.ofList r.1, r.2))
  match cs with
  | '"' :: '"' :: '"' :: rest => several '"' true rest
  | '\'' :: '\'' :: '\'' :: rest => several '\'' false rest
  | other => readLineString? other

end Strings

section Numbers

/-- Digits behind a first one.  An underscore stands between two digits. -/
def moreDigits (isDigit : Char → Bool) : List Char → Option (List Char × List Char)
  | [] => some ([], [])
  | ['_'] => none
  | '_' :: c :: rest =>
      if isDigit c then (moreDigits isDigit rest).map (fun r => (c :: r.1, r.2)) else none
  | c :: rest =>
      if isDigit c then (moreDigits isDigit rest).map (fun r => (c :: r.1, r.2))
      else some ([], c :: rest)

def digits? (isDigit : Char → Bool) : List Char → Option (List Char × List Char)
  | [] => none
  | c :: rest =>
      if isDigit c then (moreDigits isDigit rest).map (fun r => (c :: r.1, r.2)) else none

def sign : List Char → List Char × List Char
  | '+' :: rest => (['+'], rest)
  | '-' :: rest => (['-'], rest)
  | rest => ([], rest)

/-- A whole number with its sign; a leading zero stands alone. -/
def whole? (cs : List Char) : Option (List Char × List Char) :=
  let (mark, rest) := sign cs
  match rest with
  | '0' :: behind => some (mark ++ ['0'], behind)
  | _ => (digits? Text.isDigit rest).map (fun r => (mark ++ r.1, r.2))

def places? : List Char → Option (List Char × List Char)
  | '.' :: rest => (digits? Text.isDigit rest).map (fun r => ('.' :: r.1, r.2))
  | rest => some ([], rest)

def exponent? : List Char → Option (List Char × List Char)
  | c :: rest =>
      if c = 'e' ∨ c = 'E' then
        let (mark, rest) := sign rest
        (digits? Text.isDigit rest).map (fun r => ('e' :: mark ++ r.1, r.2))
      else some ([], c :: rest)
  | [] => some ([], [])

/-- A literal beyond all numbers is refused, unless it is negative. -/
def isBeyond (literal : List Char) : Bool :=
  match Decimal.readDouble? literal with
  | some x => x == 1.0 / 0.0
  | none => true

def readPointed? (cs : List Char) : Option (Toml × List Char) := do
  let (whole, rest) ← whole? cs
  let (places, rest) ← places? rest
  let (exponent, rest) ← exponent? rest
  let literal := whole ++ places ++ exponent
  if (places ++ exponent).isEmpty ∨ isBeyond literal then none
  else return (.float literal, rest)

def readWord? (cs : List Char) : Option (Toml × List Char) :=
  let (mark, rest) := sign cs
  match rest with
  | 'i' :: 'n' :: 'f' :: behind => some (.float (mark ++ "inf".toList), behind)
  | 'n' :: 'a' :: 'n' :: behind => some (.float (mark ++ "nan".toList), behind)
  | _ => none

def integerInRange? (value : Int) : Option Toml :=
  let bound : Int := Nat.pow 2 63
  if -bound ≤ value ∧ value < bound then some (.integer value) else none

def readBased? (base : Nat) (cs : List Char) : Option (Toml × List Char) := do
  let isDigit (c : Char) : Bool := (hexDigit? c).any (· < base)
  let (digits, rest) ← digits? isDigit cs
  let value ← digits.foldlM (fun value c => (hexDigit? c).map (base * value + ·)) 0
  return (← integerInRange? value, rest)

def readInteger? (cs : List Char) : Option (Toml × List Char) :=
  match cs with
  | '0' :: 'x' :: rest => readBased? 16 rest
  | '0' :: 'o' :: rest => readBased? 8 rest
  | '0' :: 'b' :: rest => readBased? 2 rest
  | _ => do
      let (literal, rest) ← whole? cs
      let (mark, digits) := sign literal
      let value ← Text.readDigits? digits
      return (← integerInRange? (if mark = ['-'] then -(value : Int) else value), rest)

end Numbers

section Moments

def field? (count low high : Nat) (cs : List Char) : Option (Nat × List Char) := do
  let value ← Text.readDigits? (cs.take count)
  if (cs.take count).length = count ∧ low ≤ value ∧ value ≤ high then
    return (value, cs.drop count)
  else none

def expect? (c : Char) : List Char → Option (List Char)
  | d :: rest => if d = c then some rest else none
  | [] => none

def isLeapYear (year : Nat) : Bool :=
  year % 4 = 0 && (year % 100 ≠ 0 || year % 400 = 0)

def daysInMonth (year month : Nat) : Nat :=
  if month = 2 then (if isLeapYear year then 29 else 28)
  else if month ∈ [4, 6, 9, 11] then 30
  else 31

def skipDate? (cs : List Char) : Option (List Char) := do
  let (year, rest) ← field? 4 0 9999 cs
  let (month, rest) ← field? 2 1 12 (← expect? '-' rest)
  let (_, rest) ← field? 2 1 (daysInMonth year month) (← expect? '-' rest)
  return rest

def skipFraction : List Char → List Char
  | '.' :: d :: rest =>
      if Text.isDigit d then rest.dropWhile Text.isDigit else '.' :: d :: rest
  | rest => rest

/-- The text behind a time; a minute may have a leap second. -/
def skipTime? (cs : List Char) : Option (List Char) := do
  let (_, rest) ← field? 2 0 23 cs
  let (_, rest) ← field? 2 0 59 (← expect? ':' rest)
  let (_, rest) ← field? 2 0 60 (← expect? ':' rest)
  return skipFraction rest

def skipOffset? : List Char → Option (List Char)
  | [] => some []
  | c :: rest =>
      if c = 'Z' ∨ c = 'z' then some rest
      else if c = '+' ∨ c = '-' then do
        let (_, rest) ← field? 2 0 23 rest
        let (_, rest) ← field? 2 0 59 (← expect? ':' rest)
        return rest
      else some (c :: rest)

def skipTimeOfDay? : List Char → Option (List Char)
  | c :: rest =>
      if c = 'T' ∨ c = 't' ∨ c = ' ' then
        match skipTime? rest with
        | some behind => skipOffset? behind
        | none => some (c :: rest)
      else some (c :: rest)
  | [] => some []

def readMoment? (cs : List Char) : Option (Toml × List Char) :=
  match skipDate? cs with
  | some rest => (skipTimeOfDay? rest).map (fun behind => (.moment, behind))
  | none => (skipTime? cs).map (fun behind => (.moment, behind))

end Moments

def readScalar? (cs : List Char) : Option (Toml × List Char) :=
  match cs with
  | 't' :: 'r' :: 'u' :: 'e' :: rest => some (.boolean true, rest)
  | 'f' :: 'a' :: 'l' :: 's' :: 'e' :: rest => some (.boolean false, rest)
  | _ => readMoment? cs <|> readPointed? cs <|> readWord? cs <|> readInteger? cs

end DerivationBelief.Toml

import DerivationBelief.UnsignedNumeral

/-!
# JSON texts

A reader for JSON values.  A number keeps its literal text, so that nothing is lost before it is
known what the number is read for; an object keeps its members in the order of the text, repeated
names included.  An escape for half of a surrogate pair is no character: a string that holds one is
garbled, and so is an object with such a name.  A garbled value may stand where nobody reads it.
-/

namespace DerivationBelief

inductive Json where
  | null
  | bool (value : Bool)
  | number (literal : List Char)
  | string (value : String)
  | array (elements : List Json)
  | object (members : List (String × Json))
  /-- A value that can be passed over but not read. -/
  | garbled

namespace Json

def isSpace (c : Char) : Bool :=
  c = ' ' || c = '\n' || c = '\t' || c = '\r'

def skipSpace (cs : List Char) : List Char :=
  cs.dropWhile isSpace

def hexDigit? (c : Char) : Option Nat :=
  if '0' ≤ c ∧ c ≤ '9' then some (c.toNat - 48)
  else if 'a' ≤ c ∧ c ≤ 'f' then some (c.toNat - 87)
  else if 'A' ≤ c ∧ c ≤ 'F' then some (c.toNat - 55)
  else none

def hexValue? (digits : List Char) : Option Nat :=
  digits.foldlM (fun value c => (hexDigit? c).map (16 * value + ·)) 0

def readUnit? : List Char → Option (Nat × List Char)
  | a :: b :: c :: d :: rest => (hexValue? [a, b, c, d]).map (fun unit => (unit, rest))
  | _ => none

/-- The character of an escape for a code unit, with the second half of its pair if it has one.
Half of a pair alone is no character, and what stands behind it is read on its own. -/
def readEscapedChar? (cs : List Char) : Option (Option Char × List Char) := do
  let (unit, rest) ← readUnit? cs
  if unit < 0xD800 ∨ 0xDFFF < unit then return (some (Char.ofNat unit), rest)
  if 0xDC00 ≤ unit then return (none, rest)
  match rest with
  | '\\' :: 'u' :: more => do
      let (low, behind) ← readUnit? more
      if low < 0xDC00 ∨ 0xDFFF < low then return (none, rest)
      return (some (Char.ofNat (0x10000 + (unit - 0xD800) * 0x400 + (low - 0xDC00))), behind)
  | _ => return (none, rest)

def simpleEscape? : Char → Option Char
  | '"' => some '"'
  | '\\' => some '\\'
  | '/' => some '/'
  | 'b' => some '\x08'
  | 'f' => some '\x0c'
  | 'n' => some '\n'
  | 'r' => some '\r'
  | 't' => some '\t'
  | _ => none

def extendText (c : Option Char) (text : Option (List Char)) : Option (List Char) := do
  return (← c) :: (← text)

def readStringBody : Nat → List Char → Option (Option (List Char) × List Char)
  | 0, _ => none
  | fuel + 1, cs =>
      match cs with
      | [] => none
      | '"' :: rest => some (some [], rest)
      | '\\' :: 'u' :: rest => do
          let (c, behind) ← readEscapedChar? rest
          let (body, after) ← readStringBody fuel behind
          return (extendText c body, after)
      | '\\' :: e :: rest => do
          let c ← simpleEscape? e
          let (body, after) ← readStringBody fuel rest
          return (extendText c body, after)
      | c :: rest => do
          if c.toNat < 0x20 then none
          let (body, after) ← readStringBody fuel rest
          return (extendText c body, after)

def readString? (cs : List Char) : Option (Option String × List Char) :=
  (readStringBody (cs.length + 1) cs).map (fun found => (found.1.map String.ofList, found.2))

def ofReadText : Option String → Json
  | some text => .string text
  | none => .garbled

def ofReadMembers (members : List (Option String × Json)) : Json :=
  match members.mapM (fun m => m.1.map (fun name => (name, m.2))) with
  | some members => .object members
  | none => .garbled

def readRun? (cs : List Char) : Option (List Char × List Char) :=
  let run := cs.takeWhile Text.isDigit
  if run.isEmpty then none else some (run, cs.dropWhile Text.isDigit)

def readWhole? : List Char → Option (List Char × List Char)
  | '0' :: rest => some (['0'], rest)
  | cs => readRun? cs

def readPlaces? : List Char → Option (List Char × List Char)
  | '.' :: rest => (readRun? rest).map (fun found => ('.' :: found.1, found.2))
  | cs => some ([], cs)

def readPower? : List Char → Option (List Char × List Char)
  | mark :: sign :: rest =>
      if mark = 'e' ∨ mark = 'E' then
        if sign = '+' ∨ sign = '-' then
          (readRun? rest).map (fun found => (mark :: sign :: found.1, found.2))
        else (readRun? (sign :: rest)).map (fun found => (mark :: found.1, found.2))
      else some ([], mark :: sign :: rest)
  | [mark] => if mark = 'e' ∨ mark = 'E' then none else some ([], [mark])
  | [] => some ([], [])

def readNumber? (cs : List Char) : Option (List Char × List Char) := do
  let (sign, unsigned) := match cs with
    | '-' :: rest => (['-'], rest)
    | rest => ([], rest)
  let (whole, afterWhole) ← readWhole? unsigned
  let (places, afterPlaces) ← readPlaces? afterWhole
  let (power, afterPower) ← readPower? afterPlaces
  return (sign ++ whole ++ places ++ power, afterPower)

mutual

def readValue : Nat → List Char → Option (Json × List Char)
  | 0, _ => none
  | fuel + 1, cs =>
      match skipSpace cs with
      | 'n' :: 'u' :: 'l' :: 'l' :: rest => some (.null, rest)
      | 't' :: 'r' :: 'u' :: 'e' :: rest => some (.bool true, rest)
      | 'f' :: 'a' :: 'l' :: 's' :: 'e' :: rest => some (.bool false, rest)
      | '"' :: rest => (readString? rest).map (fun found => (ofReadText found.1, found.2))
      | '[' :: rest =>
          match skipSpace rest with
          | ']' :: behind => some (.array [], behind)
          | _ => (readElements fuel rest).map (fun found => (.array found.1, found.2))
      | '{' :: rest =>
          match skipSpace rest with
          | '}' :: behind => some (.object [], behind)
          | _ => (readMembers fuel rest).map (fun found => (ofReadMembers found.1, found.2))
      | rest => (readNumber? rest).map (fun found => (.number found.1, found.2))

def readElements : Nat → List Char → Option (List Json × List Char)
  | 0, _ => none
  | fuel + 1, cs => do
      let (value, rest) ← readValue fuel cs
      match skipSpace rest with
      | ']' :: behind => return ([value], behind)
      | ',' :: behind => do
          let (values, after) ← readElements fuel behind
          return (value :: values, after)
      | _ => none

def readMembers : Nat → List Char → Option (List (Option String × Json) × List Char)
  | 0, _ => none
  | fuel + 1, cs =>
      match skipSpace cs with
      | '"' :: start => do
          let (name, afterName) ← readString? start
          match skipSpace afterName with
          | ':' :: valueText => do
              let (value, rest) ← readValue fuel valueText
              match skipSpace rest with
              | '}' :: behind => return ([(name, value)], behind)
              | ',' :: behind => do
                  let (members, after) ← readMembers fuel behind
                  return ((name, value) :: members, after)
              | _ => none
          | _ => none
      | _ => none

end

def ofText? (text : String) : Option Json := do
  let cs := text.toList
  let (value, rest) ← readValue (2 * cs.length + 2) cs
  if (skipSpace rest).isEmpty then return value else none

def asBool? : Json → Option Bool
  | .bool value => some value
  | _ => none

def asString? : Json → Option String
  | .string value => some value
  | _ => none

def asArray? : Json → Option (List Json)
  | .array elements => some elements
  | _ => none

/-- The value of an unsigned whole number below a bound.  A sign, a point or an exponent makes a
number something else. -/
def asBelow? (bound : Nat) : Json → Option Nat
  | .number literal => (Text.readDigits? literal).filter (· < bound)
  | _ => none

def member? (name : String) : Json → Option Json
  | .object members => (members.find? (fun m => m.1 = name)).map Prod.snd
  | _ => none

/-- The only member of that name, if there is one; repeated names are refused. -/
def uniqueMember? (members : List (String × Json)) (name : String) : Option (Option Json) :=
  match members.filter (fun m => m.1 = name) with
  | [] => some none
  | [m] => some (some m.2)
  | _ => none

/-- The fields of a record in the order of their names.  A record is written as an object, whose
further members are ignored, or as the array of its first fields. -/
def fields? (names : List String) : Json → Option (List (Option Json))
  | .object members => names.mapM (uniqueMember? members)
  | .array elements =>
      if elements.length ≤ names.length then
        some (elements.map some ++ List.replicate (names.length - elements.length) none)
      else none
  | _ => none

end Json

end DerivationBelief

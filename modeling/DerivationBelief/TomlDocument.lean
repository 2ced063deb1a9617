import DerivationBelief.TomlScalars

/-!
# TOML documents

A document is read line by line: keys with values, headers, comments.  Values are nested at most 79
deep, and a dotted key has at most 79 parts.
-/

namespace DerivationBelief.Toml

/-- Arrays and inline tables may be nested this deep. -/
def maxDepth : Nat := 79

def skipComment : List Char → List Char
  | '#' :: rest => rest.dropWhile isPlain
  | rest => rest

def lineEnd? : List Char → Option (List Char)
  | [] => some []
  | cs => newline? cs

def restOfLine? (cs : List Char) : Option (List Char) :=
  lineEnd? (skipComment (skipBlanks cs))

def isBareKey (c : Char) : Bool :=
  ('a' ≤ c && c ≤ 'z') || ('A' ≤ c && c ≤ 'Z') || Text.isDigit c || c = '-' || c = '_'

def readKeyPart? (cs : List Char) : Option (String × List Char) :=
  match cs with
  | '"' :: _ => readLineString? cs
  | '\'' :: _ => readLineString? cs
  | _ =>
      let part := cs.takeWhile isBareKey
      if part.isEmpty then none else some (String.ofList part, cs.dropWhile isBareKey)

def readKeyParts : Nat → List Char → Option (List String × List Char)
  | 0, _ => none
  | fuel + 1, cs => do
      let (part, rest) ← readKeyPart? (skipBlanks cs)
      match skipBlanks rest with
      | '.' :: more => do
          let (parts, rest) ← readKeyParts fuel more
          return (part :: parts, rest)
      | rest => return ([part], rest)

def readKey? (cs : List Char) : Option ((List String × String) × List Char) := do
  let (parts, rest) ← readKeyParts maxDepth cs
  let last ← parts.getLast?
  return ((parts.dropLast, last), rest)

def skipGaps : Nat → List Char → Option (List Char)
  | 0, _ => none
  | fuel + 1, cs =>
      match skipBlanks cs with
      | '#' :: rest => do skipGaps fuel (← newline? (rest.dropWhile isPlain))
      | rest =>
          match newline? rest with
          | some next => skipGaps fuel next
          | none => some rest

section Nested

variable (readValue : List Char → Option (Toml × List Char))

def readElements : Nat → List Char → Option (List Toml × List Char)
  | 0, _ => none
  | fuel + 1, cs => do
      match ← skipGaps (cs.length + 1) cs with
      | ']' :: rest => return ([], rest)
      | start => do
          let (value, rest) ← readValue start
          match ← skipGaps (rest.length + 1) rest with
          | ']' :: behind => return ([value], behind)
          | ',' :: behind => do
              let (values, behind) ← readElements fuel behind
              return (value :: values, behind)
          | _ => none

def readEntry? (cs : List Char) : Option (Entry × List Char) := do
  let ((path, key), rest) ← readKey? cs
  match rest with
  | '=' :: valueText => do
      let (value, rest) ← readValue (skipBlanks valueText)
      return (⟨path, key, value⟩, rest)
  | _ => none

/-- At least one entry of an inline table.  No comma follows the last one. -/
def readEntries : Nat → List Char → Option (List Entry × List Char)
  | 0, _ => none
  | fuel + 1, cs => do
      let (entry, rest) ← readEntry? readValue (skipBlanks cs)
      match skipBlanks rest with
      | '}' :: behind => return ([entry], behind)
      | ',' :: behind => do
          let (entries, behind) ← readEntries fuel behind
          return (entry :: entries, behind)
      | _ => none

def readInline? (cs : List Char) : Option (Toml × List Char) :=
  match skipBlanks cs with
  | '}' :: rest => some (.table .inline [], rest)
  | start => do
      let (entries, rest) ← readEntries readValue (start.length + 1) start
      return (.table .inline (← fill .inline [] entries), rest)

end Nested

def readValue : Nat → List Char → Option (Toml × List Char)
  | _, '"' :: rest => (readString? ('"' :: rest)).map (fun r => (.string r.1, r.2))
  | _, '\'' :: rest => (readString? ('\'' :: rest)).map (fun r => (.string r.1, r.2))
  | depth + 1, '[' :: rest =>
      (readElements (readValue depth) (rest.length + 1) rest).map (fun r => (.array r.1, r.2))
  | depth + 1, '{' :: rest => readInline? (readValue depth) rest
  | _, cs => readScalar? cs

def readHeader? (cs : List Char) : Option (Header × List Char) := do
  match cs with
  | '[' :: inner => do
      let ((path, key), rest) ← readKey? inner
      match rest with
      | ']' :: ']' :: behind => return (⟨path, key, true⟩, behind)
      | _ => none
  | inner => do
      let ((path, key), rest) ← readKey? inner
      match rest with
      | ']' :: behind => return (⟨path, key, false⟩, behind)
      | _ => none

def readSections : Nat → Section → List Char → Option (List Section)
  | 0, _, _ => none
  | fuel + 1, current, cs =>
      match skipBlanks cs with
      | [] => some [current]
      | '[' :: rest => do
          let (header, rest) ← readHeader? rest
          let sections ← readSections fuel ⟨some header, []⟩ (← restOfLine? rest)
          return current :: sections
      | '#' :: rest => do readSections fuel current (← restOfLine? ('#' :: rest))
      | start =>
          match newline? start with
          | some next => readSections fuel current next
          | none => do
              let (entry, rest) ← readEntry? (readValue maxDepth) start
              let extended := { current with entries := current.entries ++ [entry] }
              readSections fuel extended (← restOfLine? rest)

/-- A mark of the byte order in front of a document is passed over. -/
def skipMark : List Char → List Char
  | '\uFEFF' :: rest => rest
  | rest => rest

def readDocument? (text : String) : Option Members := do
  let cs := skipMark text.toList
  ofSections (← readSections (cs.length + 1) ⟨none, []⟩ cs)

end DerivationBelief.Toml

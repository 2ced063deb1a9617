import DerivationBelief.BlankText
import DerivationBelief.Faults
import DerivationBelief.TextLines
import DerivationBelief.UnsignedNumeral

/-!
# Reading files line by line

Files of factor graphs and of estimation plans are read line by line.  Blank lines and comments,
which start with a hash, are passed over.  A fault names the file and the number of the line; a file
that ends too early is at fault in its last line.
-/

namespace DerivationBelief

structure NumberedLine where
  number : Nat
  text : List Char
deriving DecidableEq, Repr

structure LineReader where
  label : String
  lineCount : Nat
  rest : List NumberedLine
deriving DecidableEq, Repr

namespace LineReader

def ofText (label text : String) : LineReader :=
  let lines := Text.lines text.toList
  let numbered := lines.zipIdx.map (fun entry => NumberedLine.mk (entry.2 + 1) (Text.trim entry.1))
  { label
    lineCount := lines.length
    rest := numbered.filter (fun line => line.text ≠ [] ∧ line.text.head? ≠ some '#') }

variable (r : LineReader)

def faultAt {β : Type} (line : Nat) (reason : String) : Except SolverFault β :=
  .error (.malformed r.label line reason)

def line : Except SolverFault (NumberedLine × LineReader) :=
  match r.rest with
  | [] => r.faultAt r.lineCount "unexpected end of file"
  | line :: rest => .ok (line, { r with rest })

def number : Except SolverFault (Nat × LineReader) := do
  let (line, rest) ← r.line
  match Text.readBelow? Text.word64 line.text with
  | some n => return (n, rest)
  | none => r.faultAt line.number ("expected a number, got '" ++ String.ofList line.text ++ "'")

def numbers : Except SolverFault (List Nat × Nat × LineReader) := do
  let (line, rest) ← r.line
  let values ← (Text.words line.text).mapM (fun word =>
    match Text.readBelow? Text.word64 word with
    | some n => .ok n
    | none => r.faultAt line.number ("bad number '" ++ String.ofList word ++ "'"))
  return (values, line.number, rest)

def repeated {β : Type} (read : LineReader → Except SolverFault (β × LineReader)) :
    Nat → LineReader → Except SolverFault (List β × LineReader)
  | 0, r => .ok ([], r)
  | count + 1, r => do
      let (item, r) ← read r
      let (items, r) ← repeated read count r
      return (item :: items, r)

end LineReader

end DerivationBelief

import DerivationBelief.FactorGraph
import DerivationBelief.FileTree
import DerivationBelief.LineReader

/-!
# Files of factor graphs

The number of factors, then each factor behind a blank line: the number of its variables, the
variables, their cardinalities, the number of its entries, and one line for each entry.
-/

namespace DerivationBelief

def numbersLine (separator : Char) (numbers : List Nat) : List Char :=
  Text.joinWith separator (numbers.map Text.natDigits)

namespace Factor

variable {α : Type}

section Writing

variable [Numeral α]

def entryLine (entry : Nat × α) : List Char :=
  Text.natDigits entry.1 ++ ' ' :: (Numeral.text entry.2).toList

def lines (f : Factor Nat α) : List (List Char) :=
  [Text.natDigits f.vars.length, numbersLine ' ' f.vars, numbersLine ' ' f.cards,
    Text.natDigits f.entries.length] ++ f.entries.map entryLine

def fileLines (factors : List (Factor Nat α)) : List (List Char) :=
  Text.natDigits factors.length :: factors.flatMap (fun f => [] :: f.lines)

end Writing

section Reading

variable [Numeral α]

def readEntryWords? : List (List Char) → Option (Nat × α)
  | [state, weight] => do
      return (← Text.readBelow? Text.word64 state, ← Numeral.read? weight)
  | _ => none

def readEntry (r : LineReader) : Except SolverFault ((Nat × α) × LineReader) := do
  let (line, rest) ← r.line
  match readEntryWords? (Text.words line.text) with
  | some entry => return (entry, rest)
  | none => r.faultAt line.number ("malformed entry '" ++ String.ofList line.text ++ "'")

def readFactor (r : LineReader) : Except SolverFault (Factor Nat α × LineReader) := do
  let (count, r) ← r.number
  let (vars, _, r) ← r.numbers
  let (cards, line, r) ← r.numbers
  if vars.length ≠ count ∨ cards.length ≠ count then
    r.faultAt line
      s!"expected {count} variables and cardinalities, got {vars.length} and {cards.length}"
  else do
    let (entryCount, r) ← r.number
    let (entries, r) ← LineReader.repeated readEntry entryCount r
    return (⟨vars, cards, entries⟩, r)

/-- The factors of a file.  Lines behind the last one are not looked at. -/
def parseAll (label text : String) : Except SolverFault (List (Factor Nat α)) := do
  let (count, r) ← (LineReader.ofText label text).number
  let (factors, _) ← LineReader.repeated readFactor count r
  return factors

end Reading

end Factor

namespace FactorGraph

variable {α : Type} [Numeral α] (f : FactorGraph α)

def text : String :=
  String.ofList (Text.unlines (Factor.fileLines f.factors))

def write (tree : FileTree) (path : String) : Except CompileFault FileTree :=
  match tree.write? path f.text with
  | some next => .ok next
  | none => .error (.unwritable path)

end FactorGraph

end DerivationBelief

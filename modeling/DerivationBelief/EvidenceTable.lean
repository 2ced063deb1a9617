import DerivationBelief.FactorGraphText

/-!
# Tables of evidence

A table lists the observed states of binary variables, one row for each observation.  Its file has
the variables in the first line and the rows from the third line on, with tabs between the columns
and nothing in the place of a missing state.
-/

namespace DerivationBelief

structure EvidenceTable where
  vars : List Nat
  rows : List (List (Option Bool))
deriving DecidableEq, Repr

namespace EvidenceTable

def stateText : Option Bool → List Char
  | some true => ['1']
  | some false => ['0']
  | none => []

def lines (t : EvidenceTable) : List (List Char) :=
  numbersLine '\t' t.vars :: [] :: t.rows.map (fun row => Text.joinWith '\t' (row.map stateText))

def text (t : EvidenceTable) : String :=
  String.ofList (Text.unlines t.lines)

def write (t : EvidenceTable) (tree : FileTree) (path : String) : Except CompileFault FileTree :=
  match tree.write? path t.text with
  | some next => .ok next
  | none => .error (.unwritable path)

def readVars (label : String) (header : List Char) : Except SolverFault (List Nat) :=
  if (Text.trim header).isEmpty then .ok []
  else
    (Text.splitAt '\t' header).mapM (fun column =>
      match Text.readBelow? Text.word64 (Text.trim column) with
      | some var => .ok var
      | none => .error (.malformed label 1 ("bad variable label '" ++ String.ofList column ++ "'")))

def readState (label : String) (line : Nat) (column : List Char) :
    Except SolverFault (Option Bool) :=
  match Text.trim column with
  | [] => .ok none
  | ['1'] => .ok (some true)
  | ['0'] => .ok (some false)
  | other => .error (.malformed label line ("bad binary value '" ++ String.ofList other ++ "'"))

/-- A row with as many columns as there are variables.  Without variables every row is empty. -/
def readRow (label : String) (width line : Nat) (text : List Char) :
    Except SolverFault (List (Option Bool)) :=
  if width = 0 then .ok []
  else
    let columns := Text.splitAt '\t' text
    if columns.length ≠ width then
      .error (.malformed label line s!"expected {width} fields, got {columns.length}")
    else columns.mapM (readState label line)

/-- The table of a file.  The second line is not looked at. -/
def parse (label text : String) : Except SolverFault EvidenceTable := do
  let lines := Text.lines text.toList
  let vars ← readVars label (lines.headD [])
  let rows ← (lines.drop 2).zipIdx.mapM (fun entry =>
    readRow label vars.length (entry.2 + 3) entry.1)
  return ⟨vars, rows⟩

end EvidenceTable

end DerivationBelief

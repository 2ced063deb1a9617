import DerivationBelief.FileTree
import DerivationBelief.Provenance

/-!
# Dictionaries of a provenance

Four text files for inspection: the tuples with their identifiers, the rules, the retained clauses
in encoded form, and the identifiers of the outputs.
-/

namespace DerivationBelief.Provenance

def tupleFile : String := "tuple_dict.txt"

def ruleFile : String := "rule_dict.txt"

def clauseFile : String := "cons_pruned.txt"

def queryFile : String := "base_queries.txt"

def textOfLines (lines : List String) : String :=
  String.join (lines.map (· ++ "\n"))

def entryLines (name : Nat → ProvenanceId) (texts : List String) : List String :=
  texts.zipIdx.map (fun entry => (name entry.2).text ++ ":\t" ++ entry.1)

variable (p : Provenance)

def tupleLines : List String :=
  entryLines .input (p.inputs.map GroundTuple.text) ++
    entryLines .hidden (p.hidden.map GroundTuple.text) ++
    entryLines .output (p.outputs.map GroundTuple.text)

def ruleLines : List String :=
  entryLines .rule p.rules

def clauseLines : Except ProvenanceFault (List String) :=
  (List.range p.clauses.length).mapM p.clauseDetail

def writeDictionary (tree : FileTree) (directory name : String) (lines : List String) :
    Except ProvenanceFault FileTree :=
  let path := joinPath directory name
  match tree.write? path (textOfLines lines) with
  | some next => .ok next
  | none => .error (.unwritable path)

def dump (tree : FileTree) (directory : String) : Except ProvenanceFault FileTree := do
  let (tree, ready) := tree.createDirectory directory
  if !ready then .error (.unwritable directory)
  let tree ← writeDictionary tree directory tupleFile p.tupleLines
  let tree ← writeDictionary tree directory ruleFile p.ruleLines
  let tree ← writeDictionary tree directory clauseFile (← p.clauseLines)
  writeDictionary tree directory queryFile p.outputIds

end DerivationBelief.Provenance

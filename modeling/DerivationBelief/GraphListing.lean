import DerivationBelief.CausalGraph
import DerivationBelief.FileTree

/-!
# Listings of causal graphs

Two text files: the nodes with their distributions and bodies, and the distributions with their
values and probabilities.  Columns are separated by tabs.  A listing that cannot be written is left
out.
-/

namespace DerivationBelief.CausalGraph

variable {α : Type} (g : CausalGraph α)

def bodyColumns (connective : String) (body : List Nat) : List String :=
  s!"{body.length}" :: connective :: body.map (fun sub => s!"{sub}")

/-- The line of a node.  A node without a distribution has a `D` in its place. -/
def nodeLine (id : Nat) : String :=
  let dist := match g.distOf? id with
    | some d => s!"{d}"
    | none => "D"
  let body := match g.sum? id, g.prod? id with
    | some body, _ => bodyColumns "+" body
    | none, some body => bodyColumns "*" body
    | none, none => ["0"]
  "\t".intercalate (s!"{id}" :: dist :: body)

def adjacencyText : String :=
  String.join ((List.range g.nodeCount).map (fun id => g.nodeLine id ++ "\n"))

section Priors

variable [Scalar α] [Numeral α]

def distLine (id : Nat) (d : Distribution α) : String :=
  "\t".intercalate
    ([s!"{id}", s!"{d.supports.length}"] ++
      d.entries.flatMap (fun entry =>
        [Numeral.pointedText entry.1, Numeral.pointedText entry.2]))

def priorsText : String :=
  String.join (g.dists.zipIdx.map (fun entry => distLine entry.2 entry.1 ++ "\n"))

def writeListing (tree : FileTree) (directory : String) : FileTree :=
  let tree := tree.tryWrite (joinPath directory (g.name ++ ".causal.graph")) g.adjacencyText
  tree.tryWrite (joinPath directory (g.name ++ ".priors.list")) g.priorsText

end Priors

end DerivationBelief.CausalGraph

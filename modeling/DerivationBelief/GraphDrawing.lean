import DerivationBelief.CausalGraph
import DerivationBelief.FileTree

/-!
# Drawings of causal graphs

A causal graph in the language of a drawing tool: a cluster of the parameters, a cluster of the
nodes with their numbers, and one cluster of the nodes for every repetition.
-/

namespace DerivationBelief.CausalGraph

variable {α : Type} (g : CausalGraph α)

def openBrace : String := "\x7b\n"

def closeBrace : String := "\x7d\n"

def parameterLine (label : Distribution α → String) (id : Nat) (d : Distribution α) : String :=
  s!"\tp{id} [label=\"{id}\n" ++ label d ++ "\",shape=box,style=filled];\n"

def shapeText (id : Nat) : String :=
  if g.isProd id then "box" else if g.isSum id then "ellipse" else "ellipse,style=filled"

def drawnNodeLine (suffix label : String) (id : Nat) : String :=
  s!"\t\tn{id}{suffix} [label=\"" ++ label ++ "\",shape=" ++ g.shapeText id ++ "];\n"

def edgeLines (suffix style : String) (derivations : List (Nat × List Nat)) : String :=
  String.join (derivations.flatMap (fun d =>
    d.2.map (fun sub => s!"\tn{sub}{suffix} -> n{d.1}{suffix}" ++ style ++ ";\n")))

/-- A cluster of nodes: the numbered one, or that of a repetition. -/
def clusterText (label : String → String) (repetition : Option Nat) : String :=
  let suffix := match repetition with
    | some k => s!"_{k}"
    | none => "_x"
  let labelOf (node : String) (id : Nat) : String :=
    match repetition with
    | some _ => label node
    | none => s!"{id + g.distCount}\n" ++ label node
  "\tsubgraph cluster" ++ suffix ++ " " ++ openBrace ++
    "\t\tlabel=\"trace" ++ suffix ++ "\";\n" ++
    String.join (g.nodes.zipIdx.map (fun entry =>
      g.drawnNodeLine suffix (labelOf entry.1 entry.2) entry.2)) ++
    edgeLines suffix " [style=dotted]" g.sums ++
    edgeLines suffix "" g.prods ++
    String.join (g.stochasticNodes.map (fun entry =>
      s!"\tp{entry.2} -> n{entry.1}{suffix} [style=bold];\n")) ++
    "\t" ++ closeBrace

def drawing (nodeLabel : String → String) (distLabel : Distribution α → String)
    (repetitions : Nat) : String :=
  "digraph G" ++ openBrace ++
    "subgraph cluster_prior " ++ openBrace ++
    "label=params;\n" ++
    String.join (g.dists.zipIdx.map (fun entry => parameterLine distLabel entry.2 entry.1)) ++
    closeBrace ++
    g.clusterText nodeLabel none ++
    String.join ((List.range repetitions).map (fun k => g.clusterText nodeLabel (some k))) ++
    closeBrace

def writeDrawing (tree : FileTree) (path : String) (nodeLabel : String → String)
    (distLabel : Distribution α → String) (repetitions : Nat) : FileTree :=
  tree.tryWrite path (g.drawing nodeLabel distLabel repetitions)

end DerivationBelief.CausalGraph

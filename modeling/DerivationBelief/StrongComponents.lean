/-!
# Strong components

A depth-first search numbers the nodes as it meets them.  A node takes over the lowest mark of the
nodes that it leads to, as long as these are in no component yet.  One that is left with its own
number is the root of a component: it takes along whatever waits above the lower marks.  Any other
node waits on the stack until its root is left.  The numbers of a component are given out again.
-/

namespace DerivationBelief

/-- What a search for components knows of a node. -/
inductive NodeMark where
  | unmet
  /-- In no component yet.  The number is that of the node, or of one that was met before it. -/
  | waiting (low : Nat)
  /-- In a component.  The search numbers components downwards from the largest word, so these marks
  are above those of all nodes that wait. -/
  | settled
deriving DecidableEq, Repr

/-- Whether a met node has a lower mark than a node that waits. -/
def NodeMark.below : NodeMark → NodeMark → Bool
  | .waiting low, .waiting other => low < other
  | _, _ => false

structure ComponentSearch where
  /-- The number of the next node. -/
  next : Nat
  marks : Nat → NodeMark
  /-- The nodes that wait for their roots, the latest first. -/
  stack : List Nat
  components : List (List Nat)

namespace ComponentSearch

def start : ComponentSearch :=
  ⟨1, fun _ => .unmet, [], []⟩

def mark (s : ComponentSearch) (v : Nat) (mark : NodeMark) : ComponentSearch :=
  { s with marks := fun u => if u = v then mark else s.marks u }

/-- Give a node the next number. -/
def enter (s : ComponentSearch) (v : Nat) : ComponentSearch :=
  { s.mark v (.waiting s.next) with next := s.next + 1 }

/-- A node takes over a lower mark, and is no root then. -/
def lower (state : ComponentSearch × Bool) (v w : Nat) : ComponentSearch × Bool :=
  if (state.1.marks w).below (state.1.marks v) then
    (state.1.mark v (state.1.marks w), false)
  else state

/-- The nodes that wait above those with a lower mark than the root. -/
def joined (s : ComponentSearch) (root : Nat) : List Nat :=
  s.stack.takeWhile (fun w => !(s.marks w).below (s.marks root))

/-- Settle the component of a root. -/
def close (s : ComponentSearch) (root : Nat) : ComponentSearch :=
  let members := (s.joined root).reverse ++ [root]
  { next := s.next - members.length
    marks := fun u => if members.contains u then .settled else s.marks u
    stack := s.stack.drop (s.joined root).length
    components := s.components ++ [members] }

def leave (state : ComponentSearch × Bool) (v : Nat) : ComponentSearch :=
  if state.2 then state.1.close v else { state.1 with stack := v :: state.1.stack }

/-- Visit a node that has not been met, and first what it leads to. -/
def visit (ahead : Nat → List Nat) : Nat → ComponentSearch → Nat → ComponentSearch
  | 0, s, _ => s
  | fuel + 1, s, v =>
      leave
        ((ahead v).foldl
          (fun state w =>
            let s := if state.1.marks w = .unmet then visit ahead fuel state.1 w else state.1
            lower (s, state.2) v w)
          (s.enter v, true))
        v

/-- The strong components of the nodes below a count, in the order in which they are settled.  No
visit is more than `count` visits deep. -/
def run (ahead : Nat → List Nat) (count : Nat) : ComponentSearch :=
  (List.range count).foldl
    (fun s v => if s.marks v = .unmet then visit ahead (count + 1) s v else s) start

end ComponentSearch

end DerivationBelief

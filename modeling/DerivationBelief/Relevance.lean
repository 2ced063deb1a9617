import DerivationBelief.ClauseIndex

/-!
# Clauses that matter for observed tuples

A clause matters when its head is reached by walking back from the observed tuples: from a tuple to
the bodies of the clauses that derive it.  The walk over numbered rules marks tuples; the walk over
clauses marks clauses.
-/

namespace DerivationBelief

def markNew (state : List Nat × List Nat) (t : Nat) : List Nat × List Nat :=
  if state.1.contains t then state else (state.1 ++ [t], state.2 ++ [t])

namespace ClauseIndex

def behind (index : ClauseIndex) (chosen : List Nat) (t : Nat) : List Nat :=
  ((index.antecedents t).filter (fun c => chosen.contains c)).flatMap index.body

def walkBack (index : ClauseIndex) (chosen : List Nat) : Nat → List Nat × List Nat → List Nat
  | 0, state => state.1
  | fuel + 1, (marked, queue) =>
      match queue with
      | [] => marked
      | t :: rest =>
          index.walkBack chosen fuel ((index.behind chosen t).foldl markNew (marked, rest))

/-- The numbers of the tuples from which an observed tuple is reached.  Every tuple is queued at
most once. -/
def coreachable (index : ClauseIndex) (chosen : List Nat) (observed : List GroundTuple) :
    List Nat :=
  index.walkBack chosen index.size
    ((observed.filterMap index.number?).foldl markNew ([], []))

def activeRules (index : ClauseIndex) (chosen : List Nat) (observed : List GroundTuple) :
    List Nat :=
  let marked := index.coreachable chosen observed
  index.ruleNumbers (fun c rule => chosen.contains c && marked.contains rule.head)

end ClauseIndex

def activate (clauses : List GroundClause) (t : GroundTuple)
    (state : List Nat × List GroundTuple) : List Nat × List GroundTuple :=
  clauses.zipIdx.foldl
    (fun state entry =>
      if entry.1.head = t ∧ ¬ state.1.contains entry.2 then
        (state.1 ++ [entry.2], state.2 ++ entry.1.bodyTuples)
      else state)
    state

def walkClauses (clauses : List GroundClause) : Nat → List Nat × List GroundTuple → List Nat
  | 0, state => state.1
  | fuel + 1, (active, queue) =>
      match queue with
      | [] => active
      | t :: rest => walkClauses clauses fuel (activate clauses t (active, rest))

/-- The clauses reached by walking back from observed tuples, ascending.  Every clause queues its
body at most once. -/
def backwardClosure (clauses : List GroundClause) (observed : List GroundTuple) : List Nat :=
  let steps := observed.length + (clauses.flatMap GroundClause.bodyTuples).length
  let active := walkClauses clauses steps ([], observed)
  (List.range clauses.length).filter (fun c => active.contains c)

end DerivationBelief

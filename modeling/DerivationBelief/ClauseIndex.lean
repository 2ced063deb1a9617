import DerivationBelief.ArrivalOrder
import DerivationBelief.GroundClause

/-!
# Numbered tuples and rules

The tuples that a list of clauses mentions are numbered in order of first mention.  A clause
becomes a numbered rule: the number of its head and the different numbers of its body.  Signs play
no part here.
-/

namespace DerivationBelief

structure Rule where
  head : Nat
  body : List Nat
deriving DecidableEq, Repr

structure ClauseIndex where
  /-- The tuples in order of first mention, heads before their bodies. -/
  tuples : List GroundTuple
  rules : List Rule
deriving DecidableEq, Repr

namespace ClauseIndex

def mentioned (clauses : List GroundClause) : List GroundTuple :=
  Arrival.distinct (clauses.flatMap (fun c => c.head :: c.bodyTuples))

def ofClauses (clauses : List GroundClause) : ClauseIndex :=
  let tuples := mentioned clauses
  { tuples
    rules := clauses.map (fun c =>
      ⟨tuples.idxOf c.head, Arrival.distinct (c.bodyTuples.map (fun t => tuples.idxOf t))⟩) }

def size (index : ClauseIndex) : Nat :=
  index.tuples.length

def number? (index : ClauseIndex) (t : GroundTuple) : Option Nat :=
  Arrival.position? index.tuples t

def ruleNumbers (index : ClauseIndex) (holds : Nat → Rule → Bool) : List Nat :=
  (index.rules.zipIdx.filter (fun entry => holds entry.2 entry.1)).map Prod.snd

def antecedents (index : ClauseIndex) (t : Nat) : List Nat :=
  index.ruleNumbers (fun _ rule => rule.head = t)

def consequents (index : ClauseIndex) (t : Nat) : List Nat :=
  index.ruleNumbers (fun _ rule => rule.body.contains t)

def body (index : ClauseIndex) (c : Nat) : List Nat :=
  (index.rules[c]?.map Rule.body).getD []

def head (index : ClauseIndex) (c : Nat) : Nat :=
  (index.rules[c]?.map Rule.head).getD 0

def members (index : ClauseIndex) (accepted : List Nat) : List Nat :=
  (List.range index.rules.length).filter (fun c => accepted.contains c)

end ClauseIndex

end DerivationBelief

import DerivationBelief.ClauseIndex

/-!
# Admitting rules without closing a cycle

A batch of rules may be added to a set of accepted rules when nothing that leads to a body of the
batch can be reached from a head of the batch.  The search grows the ancestors of the bodies and
the descendants of the heads from both ends, the smaller set first, and stops when the two meet.
A batch that may not be added as a whole is halved, and the halves are tried one after the other.
-/

namespace DerivationBelief

/-- Ancestors and descendants found so far; the new ones have not been expanded. -/
structure Frontiers where
  ancestors : List Nat
  descendants : List Nat
  newAncestors : List Nat
  newDescendants : List Nat
deriving DecidableEq, Repr

namespace Frontiers

def addAncestor? (f : Frontiers) (t : Nat) : Option Frontiers :=
  if f.descendants.contains t then none
  else if f.ancestors.contains t then some f
  else some { f with
    ancestors := f.ancestors ++ [t], newAncestors := f.newAncestors ++ [t] }

def addDescendant? (f : Frontiers) (t : Nat) : Option Frontiers :=
  if f.ancestors.contains t then none
  else if f.descendants.contains t then some f
  else some { f with
    descendants := f.descendants ++ [t], newDescendants := f.newDescendants ++ [t] }

def expandAncestor? (index : ClauseIndex) (accepted : List Nat) (f : Frontiers) (t : Nat) :
    Option Frontiers :=
  (((index.antecedents t).filter (fun c => accepted.contains c)).flatMap index.body).foldlM
    addAncestor? f

def expandDescendant? (index : ClauseIndex) (accepted : List Nat) (f : Frontiers) (t : Nat) :
    Option Frontiers :=
  (((index.consequents t).filter (fun c => accepted.contains c)).map index.head).foldlM
    addDescendant? f

def step? (index : ClauseIndex) (accepted : List Nat) (f : Frontiers) : Option Frontiers :=
  match f.newAncestors, f.newDescendants with
  | [], [] => some f
  | t :: rest, [] => expandAncestor? index accepted { f with newAncestors := rest } t
  | [], t :: rest => expandDescendant? index accepted { f with newDescendants := rest } t
  | a :: as, d :: ds =>
      if f.ancestors.length < f.descendants.length then
        expandAncestor? index accepted { f with newAncestors := as } a
      else expandDescendant? index accepted { f with newDescendants := ds } d

def staysApart (index : ClauseIndex) (accepted : List Nat) : Nat → Frontiers → Bool
  | 0, _ => true
  | fuel + 1, f =>
      if f.newAncestors.isEmpty && f.newDescendants.isEmpty then true
      else
        match f.step? index accepted with
        | none => false
        | some next => next.staysApart index accepted fuel

def ofBatch (index : ClauseIndex) (batch : List Nat) : Frontiers :=
  let bodies := Arrival.distinct (batch.flatMap index.body)
  let heads := Arrival.distinct (batch.map index.head)
  ⟨bodies, heads, bodies, heads⟩

end Frontiers

namespace ClauseIndex

/-- Whether no ancestor of the bodies of a batch is a descendant of its heads.  Every tuple is
expanded at most once on either side. -/
def keepsApart (index : ClauseIndex) (accepted batch : List Nat) : Bool :=
  let f := Frontiers.ofBatch index batch
  if f.ancestors.any (fun t => f.descendants.contains t) then false
  else f.staysApart index accepted (2 * index.size + 1)

/-- Admit a batch, or what can be admitted of its halves. -/
def admitBatch (index : ClauseIndex) : Nat → List Nat → List Nat → List Nat
  | 0, accepted, _ => accepted
  | fuel + 1, accepted, batch =>
      if batch.isEmpty then accepted
      else if index.keepsApart accepted batch then accepted ++ batch
      else if batch.length = 1 then accepted
      else
        let half := batch.length / 2
        index.admitBatch fuel (index.admitBatch fuel accepted (batch.take half)) (batch.drop half)

def candidates (index : ClauseIndex) (accepted : List Nat) : List Nat :=
  (List.range index.rules.length).filter (fun c => !accepted.contains c)

def augment (index : ClauseIndex) (accepted : List Nat) : List Nat :=
  let candidates := index.candidates accepted
  index.admitBatch candidates.length accepted candidates

end ClauseIndex

end DerivationBelief

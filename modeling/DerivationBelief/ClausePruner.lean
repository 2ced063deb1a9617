import DerivationBelief.Augmentation
import DerivationBelief.BirthDates
import DerivationBelief.Relevance

/-!
# Pruning cyclic clause sets

A pruner knows the birth dates of the tuples of a clause list and which clauses go forward in time.
The forward clauses have no cycle.  Augmenting admits further clauses as long as no cycle closes;
from then on the admitted clauses are the chosen ones.
-/

namespace DerivationBelief

structure ClausePruner where
  index : ClauseIndex
  dates : List Nat
  forward : List Nat
  augmented : Option (List Nat)
deriving DecidableEq, Repr

namespace ClausePruner

def ofClauses (clauses : List GroundClause) (inputs : List GroundTuple) : ClausePruner :=
  let index := ClauseIndex.ofClauses clauses
  let dates := index.birthDates inputs
  { index, dates, forward := index.forwardRules dates, augmented := none }

def latestDate (p : ClausePruner) : Nat :=
  p.index.size

def birthDate (p : ClausePruner) (t : GroundTuple) : Except ProvenanceFault Nat :=
  match p.index.number? t with
  | some number => .ok (p.dates.getD number p.latestDate)
  | none => .error (.unknownTuple t.text)

def clauseCount (p : ClausePruner) : Nat :=
  p.index.rules.length

/-- The clauses that walks back may use: the augmented ones, or else the forward ones. -/
def chosen (p : ClausePruner) : List Nat :=
  p.augmented.getD p.forward

def forwardClauses (p : ClausePruner) : List Nat :=
  p.index.members p.forward

/-- Empty until the pruner has been augmented. -/
def augmentedClauses (p : ClausePruner) : List Nat :=
  p.index.members (p.augmented.getD [])

def chosenClauses (p : ClausePruner) : List Nat :=
  p.index.members p.chosen

def addedClauses (p : ClausePruner) : List Nat :=
  p.augmentedClauses.filter (fun c => !p.forward.contains c)

/-- Admit further clauses, unless that has been done, and tell which have been admitted. -/
def admitMore (p : ClausePruner) : List Nat × ClausePruner :=
  match p.augmented with
  | some admitted =>
      ((List.range p.index.rules.length).filter
        (fun c => admitted.contains c && !p.forward.contains c), p)
  | none =>
      let admitted := p.index.augment p.forward
      ((p.index.candidates p.forward).filter (fun c => admitted.contains c),
        { p with augmented := some admitted })

def augment (p : ClausePruner) : ClausePruner :=
  p.admitMore.2

def keepsApart (p : ClausePruner) (batch : List Nat) : Bool :=
  p.index.keepsApart p.chosen batch

/-- The tuples from which an observed tuple is reached over the chosen clauses, behind the observed
tuples that no clause mentions. -/
def coreachable (p : ClausePruner) (observed : List GroundTuple) : List GroundTuple :=
  let marked := p.index.coreachable p.chosen observed
  observed.filter (fun t => !p.index.tuples.contains t) ++
    (p.index.tuples.zipIdx.filter (fun entry => marked.contains entry.2)).map Prod.fst

def activeClauses (p : ClausePruner) (observed : List GroundTuple) : List Nat :=
  p.index.activeRules p.chosen observed

end ClausePruner

end DerivationBelief

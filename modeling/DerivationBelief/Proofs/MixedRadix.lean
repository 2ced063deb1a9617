import Mathlib.Tactic

/-!
# Mixed radix numbers

A joint state is a list of digits, one for each variable, and the cardinalities are the radices.  The
first digit is the least significant one.
-/

namespace DerivationBelief

def jointIndex : List Nat → List Nat → Nat
  | card :: cards, digit :: digits => digit + card * jointIndex cards digits
  | _, _ => 0

def jointDigits : List Nat → Nat → List Nat
  | [], _ => []
  | card :: cards, index => index % card :: jointDigits cards (index / card)

def DigitsBelow (cards digits : List Nat) : Prop :=
  List.Forall₂ (fun card digit => digit < card) cards digits

theorem jointIndex_lt {cards digits : List Nat} (hdigits : DigitsBelow cards digits) :
    jointIndex cards digits < cards.prod := by
  induction hdigits with
  | nil => simp [jointIndex]
  | @cons card digit cards digits hdigit _ ih =>
      rw [jointIndex, List.prod_cons]
      calc
        digit + card * jointIndex cards digits
            < card + card * jointIndex cards digits := by omega
        _ = card * (jointIndex cards digits + 1) := by ring
        _ ≤ card * cards.prod := Nat.mul_le_mul_left card ih

theorem jointDigits_jointIndex {cards digits : List Nat} (hdigits : DigitsBelow cards digits) :
    jointDigits cards (jointIndex cards digits) = digits := by
  induction hdigits with
  | nil => rfl
  | @cons card digit cards digits hdigit _ ih =>
      have hpositive : 0 < card := by omega
      rw [jointIndex, jointDigits, Nat.add_mul_mod_self_left, Nat.mod_eq_of_lt hdigit,
        Nat.add_mul_div_left _ _ hpositive, Nat.div_eq_of_lt hdigit, zero_add, ih]

theorem jointDigits_below {cards : List Nat} (hcards : ∀ card ∈ cards, 0 < card) (index : Nat) :
    DigitsBelow cards (jointDigits cards index) := by
  induction cards generalizing index with
  | nil => exact .nil
  | cons card cards ih =>
      rw [List.forall_mem_cons] at hcards
      exact .cons (Nat.mod_lt index hcards.1) (ih hcards.2 (index / card))

theorem jointIndex_jointDigits {cards : List Nat} {index : Nat} (hindex : index < cards.prod) :
    jointIndex cards (jointDigits cards index) = index := by
  induction cards generalizing index with
  | nil =>
      rw [List.prod_nil, Nat.lt_one_iff] at hindex
      exact hindex.symm
  | cons card cards ih =>
      rw [List.prod_cons] at hindex
      rw [jointDigits, jointIndex, ih (Nat.div_lt_of_lt_mul hindex)]
      exact Nat.mod_add_div index card

theorem jointDigits_zero (cards : List Nat) :
    jointDigits cards 0 = cards.map (fun _ => 0) := by
  induction cards with
  | nil => rfl
  | cons card cards ih => simp [jointDigits, ih]

/-- Counting up by one turns the first digit, or clears it and turns the others. -/
theorem jointDigits_succ {card : Nat} (hcard : 0 < card) (cards : List Nat) (index : Nat) :
    jointDigits (card :: cards) (index + 1) =
      if index % card + 1 < card then (index % card + 1) :: jointDigits cards (index / card)
      else 0 :: jointDigits cards (index / card + 1) := by
  have hsplit : index + 1 = (index % card + 1) + card * (index / card) := by
    have hindex := Nat.mod_add_div index card
    omega
  have hlt := Nat.mod_lt index hcard
  rw [jointDigits]
  split
  next hnext =>
    rw [hsplit, Nat.add_mul_mod_self_left, Nat.mod_eq_of_lt hnext, Nat.add_mul_div_left _ _ hcard,
      Nat.div_eq_of_lt hnext, zero_add]
  next hwrap =>
    have hcarry : index + 1 = card * (index / card + 1) := by
      rw [mul_add, mul_one]
      omega
    rw [hcarry, Nat.mul_mod_right, Nat.mul_div_cancel_left _ hcard]

theorem jointIndex_append {pre preDigits : List Nat} (hlength : pre.length = preDigits.length)
    (post postDigits : List Nat) :
    jointIndex (pre ++ post) (preDigits ++ postDigits) =
      jointIndex pre preDigits + pre.prod * jointIndex post postDigits := by
  induction pre generalizing preDigits with
  | nil =>
      rw [List.length_nil, eq_comm, List.length_eq_zero_iff] at hlength
      simp [hlength, jointIndex]
  | cons card pre ih =>
      cases preDigits with
      | nil => simp at hlength
      | cons digit preDigits =>
          rw [List.length_cons, List.length_cons, Nat.add_right_cancel_iff] at hlength
          simp only [List.cons_append, jointIndex, ih hlength, List.prod_cons]
          ring

end DerivationBelief

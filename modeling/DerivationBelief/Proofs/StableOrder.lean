import DerivationBelief.StableOrder
import Mathlib.Data.List.Sort
import Mathlib.Tactic

/-!
# Sorted lists

Sorting rearranges the elements, and it puts them in order when any two of them can be compared.
-/

namespace DerivationBelief

variable {β : Type} {before : β → β → Bool}

theorem sortBy_eq_insertionSort (before : β → β → Bool) (elements : List β) :
    sortBy before elements = elements.insertionSort (fun a b => before a b = true) := by
  have hinsert : ∀ (x : β) (sorted : List β),
      insertBy before x sorted = sorted.orderedInsert (fun a b => before a b = true) x := by
    intro x sorted
    induction sorted with
    | nil => rfl
    | cons y sorted ih => simp only [insertBy, List.orderedInsert, ih]
  induction elements with
  | nil => rfl
  | cons x elements ih =>
      rw [List.insertionSort_cons, ← ih, ← hinsert]
      rfl

theorem sortBy_perm (before : β → β → Bool) (elements : List β) :
    (sortBy before elements).Perm elements := by
  rw [sortBy_eq_insertionSort]
  exact List.perm_insertionSort _ elements

theorem pairwise_sortBy (htotal : ∀ a b, before a b = true ∨ before b a = true)
    (htrans : ∀ a b c, before a b = true → before b c = true → before a c = true)
    (elements : List β) : (sortBy before elements).Pairwise (fun a b => before a b = true) := by
  have : Std.Total (fun a b => before a b = true) := ⟨htotal⟩
  have : IsTrans β (fun a b => before a b = true) := ⟨htrans⟩
  rw [sortBy_eq_insertionSort]
  exact List.pairwise_insertionSort _ elements

end DerivationBelief

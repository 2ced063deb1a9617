import DerivationBelief.Scalar
import Mathlib.Tactic

/-!
# Exact fractions as probabilities

Read over exact fractions, the definitions of the library are statements about probabilities.  Sums
and products no longer depend on the order of their terms.
-/

namespace DerivationBelief

-- Fractions have many sources of these two, and every lemma should find the same one.
instance fractionZero : Zero ℚ := ⟨0⟩

instance fractionOne : One ℚ := ⟨1⟩

instance fractionScalar : Scalar ℚ where
  emptySum := 0
  less x y := decide (x < y)
  atMost x y := decide (x ≤ y)
  isFinite _ := true
  sortsBefore x y := decide (x ≤ y)
  ceiling x := ⌈x⌉.toNat
  ofCount n := n

namespace Scalar

@[simp] theorem isPositive_iff {x : ℚ} : isPositive x = true ↔ 0 < x :=
  decide_eq_true_iff

theorem inUnit_iff {x : ℚ} : inUnit x = true ↔ 0 ≤ x ∧ x ≤ 1 := by
  unfold inUnit
  rw [Bool.and_eq_true]
  exact and_congr decide_eq_true_iff decide_eq_true_iff

theorem sum_eq (terms : List ℚ) : sum terms = terms.sum :=
  List.sum_eq_foldl.symm

theorem product_eq (factors : List ℚ) : product factors = factors.prod :=
  List.prod_eq_foldl.symm

end Scalar

/-! ## Sums over lists -/

theorem sum_map_range {M : Type} [AddCommMonoid M] (count : Nat) (f : Nat → M) :
    ((List.range count).map f).sum = ∑ i ∈ Finset.range count, f i := by
  rw [← List.sum_toFinset _ List.nodup_range, List.toFinset_range]

theorem sum_map_finset_sum {β : Type} (items : List β) (s : Finset Nat) (f : β → Nat → ℚ) :
    (items.map (fun item => ∑ i ∈ s, f item i)).sum = ∑ i ∈ s, (items.map (fun b => f b i)).sum := by
  induction items with
  | nil => simp
  | cons item items ih => simp only [List.map_cons, List.sum_cons, ih, Finset.sum_add_distrib]

theorem sum_map_ite {β M : Type} [AddMonoid M] (items : List β) (property : β → Prop)
    [DecidablePred property] (f : β → M) :
    (items.map (fun b => if property b then f b else 0)).sum =
      ((items.filter (fun b => property b)).map f).sum := by
  induction items with
  | nil => rfl
  | cons item items ih =>
      by_cases hitem : property item <;> simp [hitem, ih]

end DerivationBelief

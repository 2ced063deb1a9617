import Mathlib.Tactic

/-!
# Relations without a cycle

A relation is acyclic when no chain of one or more steps leads back to where it started; a step from
an element to itself is such a chain.  A relation whose steps raise a rank is acyclic, and the
numbers below a bound can be ordered along any acyclic relation.
-/

namespace DerivationBelief

open Relation

/-- No chain of steps returns to its start. -/
def Acyclic {β : Type} (step : β → β → Prop) : Prop :=
  ∀ x, ¬ TransGen step x x

namespace Acyclic

variable {β γ : Type} {step : β → β → Prop}

theorem mono {other : β → β → Prop} (hacyclic : Acyclic other)
    (hsub : ∀ x y, step x y → other x y) : Acyclic step := by
  intro x hcycle
  exact hacyclic x (TransGen.mono hsub _ _ hcycle)

theorem of_map {other : γ → γ → Prop} (hacyclic : Acyclic other) (f : β → γ)
    (hmap : ∀ x y, step x y → other (f x) (f y)) : Acyclic step := by
  intro x hcycle
  exact hacyclic (f x) (hcycle.lift f hmap)

theorem rank_lt {rank : β → Nat} (hrank : ∀ x y, step x y → rank x < rank y)
    {x y : β} (hchain : TransGen step x y) : rank x < rank y := by
  induction hchain with
  | single hstep => exact hrank _ _ hstep
  | tail _ hstep ih => exact ih.trans (hrank _ _ hstep)

theorem of_rank (rank : β → Nat) (hrank : ∀ x y, step x y → rank x < rank y) :
    Acyclic step := by
  intro x hcycle
  exact (rank_lt hrank hcycle).false

/-- A relation is acyclic when its steps are images of acyclic steps that join as their images do. -/
theorem of_image {other : γ → γ → Prop} (hacyclic : Acyclic other) (f : γ → β)
    (hjoin : ∀ a b c d, other a b → other c d → f b = f c → b = c)
    (hsteps : ∀ x y, step x y → ∃ a b, f a = x ∧ f b = y ∧ other a b) : Acyclic step := by
  have hlift : ∀ {x y}, TransGen step x y → ∃ a b c d, f a = x ∧ f d = y ∧ other a b ∧
      other c d ∧ TransGen other a d := by
    intro x y hchain
    induction hchain with
    | single hstep =>
        obtain ⟨a, b, ha, hb, hother⟩ := hsteps _ _ hstep
        exact ⟨a, b, a, b, ha, hb, hother, hother, TransGen.single hother⟩
    | tail _ hstep ih =>
        obtain ⟨a, b, c, d, ha, hd, hfirst, hlast, hchain⟩ := ih
        obtain ⟨e, last, he, hend, hother⟩ := hsteps _ _ hstep
        have hsame : d = e := hjoin c d e last hlast hother (hd.trans he.symm)
        subst hsame
        exact ⟨a, b, d, last, ha, hend, hfirst, hother, hchain.tail hother⟩
  intro x hcycle
  obtain ⟨a, b, c, d, ha, hd, hfirst, hlast, hchain⟩ := hlift hcycle
  have hsame : d = a := hjoin c d a b hlast hfirst (hd.trans ha.symm)
  subst hsame
  exact hacyclic d hchain

end Acyclic

/-! ## Orders along an acyclic relation -/

section Orders

variable {step : Nat → Nat → Prop}

open Classical in
noncomputable def behindCount (step : Nat → Nat → Prop) (bound x : Nat) : Nat :=
  ((Finset.range bound).filter (fun y => TransGen step y x)).card

theorem behindCount_lt (hacyclic : Acyclic step) {bound x y : Nat} (hx : x < bound)
    (hstep : step x y) : behindCount step bound x < behindCount step bound y := by
  apply Finset.card_lt_card
  rw [Finset.ssubset_iff_of_subset]
  · refine ⟨x, ?_, ?_⟩
    · simp only [Finset.mem_filter, Finset.mem_range]
      exact ⟨hx, TransGen.single hstep⟩
    · simp only [Finset.mem_filter, not_and]
      intro _
      exact hacyclic x
  · intro z hz
    simp only [Finset.mem_filter] at hz ⊢
    exact ⟨hz.1, hz.2.tail hstep⟩

/-- The numbers below a bound can be listed so that no later one steps to an earlier one. -/
theorem exists_order (hacyclic : Acyclic step) (bound : Nat) :
    ∃ order : List Nat, order.Perm (List.range bound) ∧
      order.Pairwise (fun x y => ¬ step y x) := by
  classical
  let rank := behindCount step bound
  let order := (List.range bound).mergeSort (fun x y => decide (rank x ≤ rank y))
  have hperm : order.Perm (List.range bound) := List.mergeSort_perm _ _
  have hsorted : order.Pairwise (fun x y => rank x ≤ rank y) := by
    have hpairs := @List.pairwise_mergeSort _ (fun x y => decide (rank x ≤ rank y))
      (by
        intro x y z hxy hyz
        simp only [decide_eq_true_eq] at *
        exact hxy.trans hyz)
      (by
        intro x y
        simp only [Bool.or_eq_true, decide_eq_true_eq]
        exact le_total (rank x) (rank y)) (List.range bound)
    exact hpairs.imp (fun hle => of_decide_eq_true hle)
  refine ⟨order, hperm, hsorted.imp_of_mem ?_⟩
  intro x y _ hy hle hstep
  have hybound : y < bound := List.mem_range.mp (hperm.mem_iff.mp hy)
  exact (behindCount_lt hacyclic hybound hstep).not_ge hle

end Orders

end DerivationBelief

import Mathlib.Algebra.BigOperators.Ring.Finset
import Mathlib.Logic.Function.DependsOn
import Mathlib.Tactic

/-!
# Sums over the states of variables

An assignment gives a state to every variable, and a weight depends on some of the variables.  A
weight is summed over variables one after the other.  The order of the variables does not matter, a
factor that depends on none of them stands in front of the sum, and only assignments within the
cardinalities are looked at.
-/

namespace DerivationBelief

abbrev Assignment :=
  Nat → Nat

variable {card : Nat → Nat}

def InRange (card : Nat → Nat) (a : Assignment) : Prop :=
  ∀ v, a v < card v

theorem InRange.update {a : Assignment} (ha : InRange card a) {v s : Nat} (hs : s < card v) :
    InRange card (Function.update a v s) := by
  intro u
  by_cases hu : u = v
  · subst u
    simpa using hs
  · simpa [hu] using ha u

def sumState (card : Nat → Nat) (v : Nat) (weight : Assignment → ℚ) (a : Assignment) : ℚ :=
  ∑ s ∈ Finset.range (card v), weight (Function.update a v s)

def sumStates (card : Nat → Nat) : List Nat → (Assignment → ℚ) → Assignment → ℚ
  | [], weight => weight
  | v :: vs, weight => sumStates card vs (sumState card v weight)

theorem sumState_congr {v : Nat} {weight other : Assignment → ℚ}
    (hsame : ∀ a, InRange card a → weight a = other a) {a : Assignment} (ha : InRange card a) :
    sumState card v weight a = sumState card v other a := by
  apply Finset.sum_congr rfl
  intro s hs
  exact hsame _ (ha.update (Finset.mem_range.mp hs))

theorem sumStates_congr {vs : List Nat} {weight other : Assignment → ℚ}
    (hsame : ∀ a, InRange card a → weight a = other a) {a : Assignment} (ha : InRange card a) :
    sumStates card vs weight a = sumStates card vs other a := by
  induction vs generalizing weight other with
  | nil => exact hsame a ha
  | cons v vs ih => exact ih fun b hb => sumState_congr hsame hb

/-- Only assignments that differ from the first one in the summed variables are looked at. -/
theorem sumStates_congr_off {vars : List Nat} {weight other : Assignment → ℚ} {a : Assignment}
    (hsame : ∀ b : Assignment, (∀ v ∉ vars, b v = a v) → weight b = other b) :
    sumStates card vars weight a = sumStates card vars other a := by
  induction vars generalizing weight other with
  | nil => exact hsame a (fun _ _ => rfl)
  | cons v vars ih =>
      apply ih
      intro b hb
      apply Finset.sum_congr rfl
      intro s _
      apply hsame
      intro u hu
      rw [List.mem_cons, not_or] at hu
      rw [Function.update_of_ne hu.1]
      exact hb u hu.2

theorem sumStates_append (vs ws : List Nat) (weight : Assignment → ℚ) :
    sumStates card (vs ++ ws) weight = sumStates card ws (sumStates card vs weight) := by
  induction vs generalizing weight with
  | nil => rfl
  | cons v vs ih => exact ih _

theorem sumState_comm (v w : Nat) (weight : Assignment → ℚ) :
    sumState card v (sumState card w weight) = sumState card w (sumState card v weight) := by
  by_cases hvw : v = w
  · rw [hvw]
  · funext a
    unfold sumState
    rw [Finset.sum_comm]
    apply Finset.sum_congr rfl
    intro s _
    apply Finset.sum_congr rfl
    intro r _
    rw [Function.update_comm hvw]

theorem sumStates_perm {vs ws : List Nat} (hperm : vs.Perm ws) (weight : Assignment → ℚ) :
    sumStates card vs weight = sumStates card ws weight := by
  induction hperm generalizing weight with
  | nil => rfl
  | cons v _ ih => exact ih _
  | swap v w vs =>
      simp only [sumStates]
      rw [sumState_comm]
  | trans _ _ ihfirst ihsecond => rw [ihfirst, ihsecond]

theorem sumStates_zero (vs : List Nat) (a : Assignment) :
    sumStates card vs (fun _ => 0) a = 0 := by
  induction vs with
  | nil => rfl
  | cons v vs ih =>
      have hzero : sumState card v (fun _ => 0) = fun _ => 0 := by
        funext b
        exact Finset.sum_const_zero
      rw [sumStates, hzero, ih]

theorem sumStates_nonneg {vars : List Nat} {weight : Assignment → ℚ} (hweight : ∀ a, 0 ≤ weight a)
    (a : Assignment) : 0 ≤ sumStates card vars weight a := by
  induction vars generalizing weight with
  | nil => exact hweight a
  | cons v vars ih => exact ih fun b => Finset.sum_nonneg fun s _ => hweight _

theorem sumStates_average {card : Nat → Nat} (states : Finset Nat) (shares : Nat → ℚ)
    (vars : List Nat) (weights : Nat → Assignment → ℚ) (a : Assignment) :
    ∑ s ∈ states, shares s * sumStates card vars (weights s) a =
      sumStates card vars (fun b => ∑ s ∈ states, shares s * weights s b) a := by
  induction vars generalizing weights with
  | nil => rfl
  | cons v vars ih =>
      have hstep : sumState card v (fun b => ∑ s ∈ states, shares s * weights s b) =
          fun b => ∑ s ∈ states, shares s * sumState card v (weights s) b := by
        funext b
        unfold sumState
        simp only [Finset.mul_sum]
        exact Finset.sum_comm
      rw [sumStates, hstep, ← ih]
      rfl

/-! ## Weights that do not depend on a variable -/

theorem update_of_dependsOn {β : Type} {scope : Set Nat} {weight : Assignment → β}
    (hweight : DependsOn weight scope) {v : Nat} (hv : v ∉ scope) (a : Assignment) (s : Nat) :
    weight (Function.update a v s) = weight a := by
  apply hweight
  intro u hu
  rw [Function.update_of_ne]
  rintro rfl
  exact hv hu

theorem sumState_mul_left {scope : Set Nat} {outer : Assignment → ℚ}
    (houter : DependsOn outer scope) {v : Nat} (hv : v ∉ scope) (weight : Assignment → ℚ) :
    sumState card v (fun b => outer b * weight b) =
      fun b => outer b * sumState card v weight b := by
  funext b
  unfold sumState
  rw [Finset.mul_sum]
  apply Finset.sum_congr rfl
  intro s _
  simp only [update_of_dependsOn houter hv]

theorem sumStates_mul_left {vs : List Nat} {scope : Set Nat} {outer : Assignment → ℚ}
    (houter : DependsOn outer scope) (hvs : ∀ v ∈ vs, v ∉ scope) (weight : Assignment → ℚ) :
    sumStates card vs (fun b => outer b * weight b) =
      fun b => outer b * sumStates card vs weight b := by
  induction vs generalizing weight with
  | nil => rfl
  | cons v vs ih =>
      rw [List.forall_mem_cons] at hvs
      simp only [sumStates]
      rw [sumState_mul_left houter hvs.1, ih hvs.2]

/-- Substituting a value for a variable commutes with summing over variables that neither the value
depends on nor are substituted. -/
theorem sumStates_substitute {vs : List Nat} {v : Nat} (hv : v ∉ vs) {scope : Set Nat}
    {value : Assignment → Nat} (hvalue : DependsOn value scope) (hvs : ∀ u ∈ vs, u ∉ scope)
    (weight : Assignment → ℚ) (a : Assignment) :
    sumStates card vs (fun b => weight (Function.update b v (value b))) a =
      sumStates card vs weight (Function.update a v (value a)) := by
  induction vs generalizing weight with
  | nil => rfl
  | cons u vs ih =>
      rw [List.mem_cons, not_or] at hv
      rw [List.forall_mem_cons] at hvs
      have hstep : sumState card u (fun b => weight (Function.update b v (value b))) =
          fun b => sumState card u weight (Function.update b v (value b)) := by
        funext b
        unfold sumState
        simp only [update_of_dependsOn hvalue hvs.1, Function.update_comm hv.1]
      rw [sumStates, hstep, ih hv.2 hvs.2, sumStates]

theorem sumStates_update {vs : List Nat} {v : Nat} (hv : v ∉ vs) (weight : Assignment → ℚ)
    (a : Assignment) (s : Nat) :
    sumStates card vs (fun b => weight (Function.update b v s)) a =
      sumStates card vs weight (Function.update a v s) :=
  sumStates_substitute hv (dependsOn_const s) (fun _ _ hu => hu) weight a

theorem sumState_dependsOn {v : Nat} {scope : Set Nat} {weight : Assignment → ℚ}
    (hweight : DependsOn weight scope) :
    DependsOn (sumState card v weight) (scope \ {v}) := by
  intro a b hab
  apply Finset.sum_congr rfl
  intro s _
  apply hweight
  intro u hu
  by_cases huv : u = v
  · rw [huv, Function.update_self, Function.update_self]
  · rw [Function.update_of_ne huv, Function.update_of_ne huv]
    exact hab u ⟨hu, huv⟩

theorem sumStates_dependsOn {vars : List Nat} {scope : Set Nat} {weight : Assignment → ℚ}
    (hweight : DependsOn weight scope) : DependsOn (sumStates card vars weight) scope := by
  induction vars generalizing weight with
  | nil => exact hweight
  | cons v vars ih => exact ih ((sumState_dependsOn hweight).mono Set.sdiff_subset)

/-- A product of weights, each of which adds up to one over variables of its own that the weights
behind it do not depend on, adds up to one over all these variables. -/
theorem sumStates_chain {parts : List (List Nat × (Assignment → ℚ))}
    (hnormal : ∀ part ∈ parts, ∀ a, InRange card a → sumStates card part.1 part.2 a = 1)
    (hlater : parts.Pairwise (fun part later => DependsOn later.2 {v | v ∉ part.1}))
    {a : Assignment} (ha : InRange card a) :
    sumStates card (parts.flatMap Prod.fst) (fun b => (parts.map (fun part => part.2 b)).prod) a =
      1 := by
  induction parts with
  | nil => rfl
  | cons part parts ih =>
      rw [List.forall_mem_cons] at hnormal
      obtain ⟨hfirst, hrest⟩ := List.pairwise_cons.mp hlater
      set others : Assignment → ℚ := fun b => (parts.map (fun later => later.2 b)).prod
      have hothers : DependsOn others {v | v ∉ part.1} := by
        intro b c hbc
        change (parts.map _).prod = (parts.map _).prod
        congr 1
        apply List.map_congr_left
        intro later hmem
        exact hfirst later hmem hbc
      have hproduct : (fun b => ((part :: parts).map (fun later => later.2 b)).prod) =
          fun b => others b * part.2 b := by
        funext b
        rw [List.map_cons, List.prod_cons, mul_comm]
      rw [← ih hnormal.2 hrest, List.flatMap_cons, sumStates_append, hproduct,
        sumStates_mul_left hothers (fun v hv hnot => hnot hv)]
      apply sumStates_congr _ ha
      intro b hb
      rw [hnormal.1 b hb, mul_one]

/-- The sum of a product of weights, none of which depends on the variables of another one, is the
product of their sums.  A factor that depends on none of the variables stands in front. -/
theorem sumStates_prod {parts : List (List Nat × (Assignment → ℚ))}
    (hparts : parts.Pairwise (fun part later =>
      DependsOn part.2 {v | v ∉ later.1} ∧ DependsOn later.2 {v | v ∉ part.1}))
    {outer : Assignment → ℚ} (houter : ∀ part ∈ parts, DependsOn outer {v | v ∉ part.1}) :
    sumStates card (parts.flatMap Prod.fst)
        (fun a => outer a * (parts.map (fun part => part.2 a)).prod) =
      fun a => outer a * (parts.map (fun part => sumStates card part.1 part.2 a)).prod := by
  induction parts generalizing outer with
  | nil => rfl
  | cons part parts ih =>
      obtain ⟨hfirst, hrest⟩ := List.pairwise_cons.mp hparts
      rw [List.forall_mem_cons] at houter
      set others : Assignment → ℚ := fun a => (parts.map (fun later => later.2 a)).prod
        with hdef
      have hothers : DependsOn (fun a => outer a * others a) {v | v ∉ part.1} := by
        intro a b hab
        have hlater : others a = others b := by
          rw [hdef]
          dsimp only
          congr 1
          apply List.map_congr_left
          intro later hmem
          exact (hfirst later hmem).2 hab
        dsimp only
        rw [houter.1 hab, hlater]
      -- Summed over its own variables, the first part joins the factor in front of the others.
      have hjoined : ∀ later ∈ parts,
          DependsOn (fun a => outer a * sumStates card part.1 part.2 a) {v | v ∉ later.1} := by
        intro later hmem a b hab
        have hpart : sumStates card part.1 part.2 a = sumStates card part.1 part.2 b :=
          sumStates_dependsOn (hfirst later hmem).1 hab
        dsimp only
        rw [houter.2 later hmem hab, hpart]
      have hproduct : (fun a => outer a * ((part :: parts).map (fun later => later.2 a)).prod) =
          fun a => outer a * others a * part.2 a := by
        funext a
        rw [List.map_cons, List.prod_cons]
        ring
      have hstep : (fun a => outer a * others a * sumStates card part.1 part.2 a) =
          fun a => outer a * sumStates card part.1 part.2 a * others a := by
        funext a
        ring
      rw [List.flatMap_cons, sumStates_append, hproduct,
        sumStates_mul_left hothers (fun v hv hnot => hnot hv), hstep, ih hrest hjoined]
      funext a
      rw [List.map_cons, List.prod_cons, mul_assoc]

/-! ## Renaming variables -/

/-- Sums over variables that are paired agree when the weights do, on assignments that agree on the
pairs and are otherwise the first ones. -/
theorem sumStates_rename_off {other : Nat → Nat} {pairs : List (Nat × Nat)}
    (hfirst : (pairs.map Prod.fst).Nodup) (hsecond : (pairs.map Prod.snd).Nodup)
    (hcards : ∀ p ∈ pairs, card p.1 = other p.2) {weight renamed : Assignment → ℚ}
    {a b : Assignment}
    (hweights : ∀ c d : Assignment, (∀ v ∉ pairs.map Prod.fst, c v = a v) →
      (∀ v ∉ pairs.map Prod.snd, d v = b v) → (∀ p ∈ pairs, c p.1 = d p.2) →
        weight c = renamed d) :
    sumStates card (pairs.map Prod.fst) weight a =
      sumStates other (pairs.map Prod.snd) renamed b := by
  induction pairs generalizing weight renamed with
  | nil => exact hweights a b (fun _ _ => rfl) (fun _ _ => rfl) (by simp)
  | cons p pairs ih =>
      rw [List.map_cons, List.nodup_cons] at hfirst hsecond
      rw [List.forall_mem_cons] at hcards
      -- The inner sum over the first pair is again a weight that depends on paired variables.
      apply ih hfirst.2 hsecond.2 hcards.2
      intro c d hc hd hcd
      unfold sumState
      rw [hcards.1]
      apply Finset.sum_congr rfl
      intro s _
      apply hweights
      · intro v hv
        rw [List.map_cons, List.mem_cons, not_or] at hv
        rw [Function.update_of_ne hv.1, hc v hv.2]
      · intro v hv
        rw [List.map_cons, List.mem_cons, not_or] at hv
        rw [Function.update_of_ne hv.1, hd v hv.2]
      · rw [List.forall_mem_cons]
        refine ⟨by simp, ?_⟩
        intro q hq
        have hone : q.1 ≠ p.1 := fun heq => hfirst.1 (heq ▸ List.mem_map_of_mem hq)
        have htwo : q.2 ≠ p.2 := fun heq => hsecond.1 (heq ▸ List.mem_map_of_mem hq)
        rw [Function.update_of_ne hone, Function.update_of_ne htwo]
        exact hcd q hq

end DerivationBelief

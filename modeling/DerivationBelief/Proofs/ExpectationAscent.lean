import Mathlib.Analysis.SpecialFunctions.Log.Basic
import Mathlib.Tactic

/-!
# Mean posteriors raise a likelihood

Some rows are explained by states with weights.  A weight has factors, each of which is a
distribution over the values that the states give to it.  Every row has a posterior over the states,
and so over the values of each factor.  When the factors are replaced by the means of their
posteriors over the rows, the product of what the rows weigh does not become smaller.

The proof applies the log sum inequality twice: to the states of each row, which bounds the change
of its logarithm by the mean change of the logarithms of the weights, and to the values of each
factor, where the mean posterior is the distribution that the mean change favours.
-/

namespace DerivationBelief

open Finset Real

/-! ## The log sum inequality -/

theorem log_sum_le {ι : Type} {s : Finset ι} {a b : ι → ℝ} (ha : ∀ i ∈ s, 0 ≤ a i)
    (hb : ∀ i ∈ s, 0 ≤ b i) (hab : ∀ i ∈ s, 0 < a i → 0 < b i) :
    (∑ i ∈ s, a i) * (log (∑ i ∈ s, a i) - log (∑ i ∈ s, b i)) ≤
      ∑ i ∈ s, a i * (log (a i) - log (b i)) := by
  set A := ∑ i ∈ s, a i with hA
  set B := ∑ i ∈ s, b i with hB
  by_cases hzero : ∀ i ∈ s, a i = 0
  · have hsum : A = 0 := by rw [hA, sum_eq_zero hzero]
    have hterms : ∑ i ∈ s, a i * (log (a i) - log (b i)) = 0 := by
      apply sum_eq_zero
      intro i hi
      simp [hzero i hi]
    simp [hsum, hterms]
  · push Not at hzero
    obtain ⟨first, hfirst, hne⟩ := hzero
    have hpositive : 0 < a first := lt_of_le_of_ne (ha first hfirst) (Ne.symm hne)
    have hApos : 0 < A := lt_of_lt_of_le hpositive (single_le_sum ha hfirst)
    have hBpos : 0 < B := lt_of_lt_of_le (hab first hfirst hpositive) (single_le_sum hb hfirst)
    have hterm : ∀ i ∈ s, a i * (log A - log B) - a i * (log (a i) - log (b i)) ≤
        b i * (A / B) - a i := by
      intro i hi
      rcases (ha i hi).eq_or_lt with hnone | hsome
      · have hnonneg : 0 ≤ b i * (A / B) := mul_nonneg (hb i hi) (div_pos hApos hBpos).le
        simpa [← hnone] using hnonneg
      · have hbpos := hab i hi hsome
        have hratio : 0 < b i * A / (a i * B) := by positivity
        have hlog := log_le_sub_one_of_pos hratio
        rw [log_div (by positivity) (by positivity), log_mul hbpos.ne' hApos.ne',
          log_mul hsome.ne' hBpos.ne'] at hlog
        calc
          a i * (log A - log B) - a i * (log (a i) - log (b i))
              = a i * (log (b i) + log A - (log (a i) + log B)) := by ring
          _ ≤ a i * (b i * A / (a i * B) - 1) := mul_le_mul_of_nonneg_left hlog hsome.le
          _ = b i * (A / B) - a i := by field_simp
    have hsum := sum_le_sum hterm
    rw [sum_sub_distrib, sum_sub_distrib, ← sum_mul, ← sum_mul, ← hA, ← hB,
      mul_div_cancel₀ A hBpos.ne', sub_self] at hsum
    linarith

/-! ## Rows and factors -/

/-- Rows are events over states with weights, and the weights have factors, each a distribution over
the values of a state.  The next factors are the mean posteriors over the rows. -/
structure MeanPosteriors {ι ρ κ : Type} [DecidableEq ι] [Fintype ρ] (event : ρ → Finset ι)
    (factors : Finset κ) (values : κ → Finset Nat) (value : κ → ι → Nat) (weight next : ι → ℝ)
    (prior mean : κ → Nat → ℝ) : Prop where
  weight_nonneg : ∀ i, 0 ≤ weight i
  next_nonneg : ∀ i, 0 ≤ next i
  prior_nonneg : ∀ k ∈ factors, ∀ s, 0 ≤ prior k s
  prior_sum : ∀ k ∈ factors, ∑ s ∈ values k, prior k s = 1
  value_mem : ∀ k ∈ factors, ∀ r, ∀ i ∈ event r, value k i ∈ values k
  row_pos : ∀ r, 0 < ∑ i ∈ event r, weight i
  mean_eq : ∀ k ∈ factors, ∀ s ∈ values k, mean k s =
    (∑ r, (∑ i ∈ event r with value k i = s, weight i) / ∑ i ∈ event r, weight i) /
      Fintype.card ρ
  next_eq : ∀ r, ∀ i ∈ event r, next i * ∏ k ∈ factors, prior k (value k i) =
    weight i * ∏ k ∈ factors, mean k (value k i)

namespace MeanPosteriors

variable {ι ρ κ : Type} [DecidableEq ι] [Fintype ρ] {event : ρ → Finset ι} {factors : Finset κ}
  {values : κ → Finset Nat} {value : κ → ι → Nat} {weight next : ι → ℝ} {prior mean : κ → Nat → ℝ}

theorem mean_pos (h : MeanPosteriors event factors values value weight next prior mean)
    {k : κ} (hk : k ∈ factors) {r : ρ} {i : ι} (hi : i ∈ event r) (hweight : 0 < weight i) :
    0 < mean k (value k i) := by
  rw [h.mean_eq k hk _ (h.value_mem k hk r i hi)]
  have hcard : (0 : ℝ) < Fintype.card ρ := by
    exact_mod_cast Fintype.card_pos_iff.mpr ⟨r⟩
  apply div_pos _ hcard
  have hnonneg : ∀ r ∈ Finset.univ, 0 ≤
      (∑ j ∈ event r with value k j = value k i, weight j) / ∑ j ∈ event r, weight j :=
    fun r _ => div_nonneg (sum_nonneg fun j _ => h.weight_nonneg j) (h.row_pos r).le
  refine lt_of_lt_of_le (div_pos (lt_of_lt_of_le hweight ?_) (h.row_pos r))
    (single_le_sum hnonneg (mem_univ r))
  exact single_le_sum (fun j _ => h.weight_nonneg j) (mem_filter.mpr ⟨hi, rfl⟩)

theorem next_pos (h : MeanPosteriors event factors values value weight next prior mean)
    {r : ρ} {i : ι} (hi : i ∈ event r) (hweight : 0 < weight i) :
    0 < next i ∧ ∀ k ∈ factors, 0 < prior k (value k i) := by
  have hproduct : 0 < next i * ∏ k ∈ factors, prior k (value k i) := by
    rw [h.next_eq r i hi]
    exact mul_pos hweight (prod_pos fun k hk => h.mean_pos hk hi hweight)
  have hpriors : ∏ k ∈ factors, prior k (value k i) ≠ 0 := right_ne_zero_of_mul hproduct.ne'
  refine ⟨lt_of_le_of_ne (h.next_nonneg i) (left_ne_zero_of_mul hproduct.ne').symm, ?_⟩
  intro k hk
  exact lt_of_le_of_ne (h.prior_nonneg k hk _) (prod_ne_zero_iff.mp hpriors k hk).symm

/-- The logarithm of a weight changes by the changes of its factors. -/
theorem log_change (h : MeanPosteriors event factors values value weight next prior mean)
    {r : ρ} {i : ι} (hi : i ∈ event r) (hweight : 0 < weight i) :
    log (weight i) - log (next i) =
      ∑ k ∈ factors, (log (prior k (value k i)) - log (mean k (value k i))) := by
  obtain ⟨hnext, hprior⟩ := h.next_pos hi hweight
  have hpriors : ∏ k ∈ factors, prior k (value k i) ≠ 0 :=
    prod_ne_zero_iff.mpr fun k hk => (hprior k hk).ne'
  have hmeans : ∏ k ∈ factors, mean k (value k i) ≠ 0 :=
    prod_ne_zero_iff.mpr fun k hk => (h.mean_pos hk hi hweight).ne'
  have hlog := congrArg log (h.next_eq r i hi)
  rw [log_mul hnext.ne' hpriors, log_mul hweight.ne' hmeans,
    log_prod fun k hk => (hprior k hk).ne',
    log_prod fun k hk => (h.mean_pos hk hi hweight).ne'] at hlog
  rw [sum_sub_distrib]
  linarith

/-- What a row loses is at most the mean loss of the weights under its posterior. -/
theorem row_loss (h : MeanPosteriors event factors values value weight next prior mean) (r : ρ) :
    log (∑ i ∈ event r, weight i) - log (∑ i ∈ event r, next i) ≤
      ∑ k ∈ factors, ∑ s ∈ values k,
        (∑ i ∈ event r with value k i = s, weight i) / (∑ i ∈ event r, weight i) *
          (log (prior k s) - log (mean k s)) := by
  have hrow := h.row_pos r
  have hbound := log_sum_le (s := event r) (fun i _ => h.weight_nonneg i)
    (fun i _ => h.next_nonneg i) (fun i hi hweight => (h.next_pos hi hweight).1)
  have hfactors : ∑ i ∈ event r, weight i * (log (weight i) - log (next i)) =
      ∑ k ∈ factors, ∑ s ∈ values k,
        (∑ i ∈ event r with value k i = s, weight i) * (log (prior k s) - log (mean k s)) := by
    calc
      ∑ i ∈ event r, weight i * (log (weight i) - log (next i))
          = ∑ i ∈ event r, ∑ k ∈ factors,
              weight i * (log (prior k (value k i)) - log (mean k (value k i))) := by
            apply sum_congr rfl
            intro i hi
            rcases (h.weight_nonneg i).eq_or_lt with hnone | hsome
            · simp [← hnone]
            · rw [h.log_change hi hsome, mul_sum]
      _ = ∑ k ∈ factors, ∑ i ∈ event r,
              weight i * (log (prior k (value k i)) - log (mean k (value k i))) := sum_comm
      _ = _ := by
            apply sum_congr rfl
            intro k hk
            rw [← sum_fiberwise_of_maps_to (fun i hi => h.value_mem k hk r i hi)]
            apply sum_congr rfl
            intro s _
            rw [sum_mul]
            apply sum_congr rfl
            intro i hi
            rw [(mem_filter.mp hi).2]
  rw [hfactors, mul_comm, ← le_div_iff₀ hrow] at hbound
  refine hbound.trans_eq ?_
  rw [sum_div]
  apply sum_congr rfl
  intro k _
  rw [sum_div]
  apply sum_congr rfl
  intro s _
  ring

/-- The mean posterior of a factor adds up to one when there are rows. -/
theorem mean_sum (h : MeanPosteriors event factors values value weight next prior mean)
    [Nonempty ρ] {k : κ} (hk : k ∈ factors) : ∑ s ∈ values k, mean k s = 1 := by
  have hrow : ∀ r, ∑ s ∈ values k,
      (∑ i ∈ event r with value k i = s, weight i) / ∑ i ∈ event r, weight i = 1 := by
    intro r
    rw [← sum_div, sum_fiberwise_of_maps_to (fun i hi => h.value_mem k hk r i hi),
      div_self (h.row_pos r).ne']
  have hcard : (Fintype.card ρ : ℝ) ≠ 0 := by
    exact_mod_cast Fintype.card_ne_zero
  rw [sum_congr rfl (h.mean_eq k hk), ← sum_div, sum_comm, sum_congr rfl fun r _ => hrow r]
  simp [hcard]

/-- No factor loses on the mean. -/
theorem factor_loss (h : MeanPosteriors event factors values value weight next prior mean)
    [Nonempty ρ] {k : κ} (hk : k ∈ factors) :
    ∑ s ∈ values k, mean k s * (log (prior k s) - log (mean k s)) ≤ 0 := by
  have hcard : (0 : ℝ) < Fintype.card ρ := by
    exact_mod_cast Fintype.card_pos
  have hmean : ∀ s ∈ values k, 0 ≤ mean k s := by
    intro s hs
    rw [h.mean_eq k hk s hs]
    exact div_nonneg (sum_nonneg fun r _ =>
      div_nonneg (sum_nonneg fun i _ => h.weight_nonneg i) (h.row_pos r).le) hcard.le
  have hsupport : ∀ s ∈ values k, 0 < mean k s → 0 < prior k s := by
    intro s hs hpositive
    by_contra hnot
    -- Without a prior no state with the value has a weight, and the mean is zero.
    have hnone : ∀ r, ∑ i ∈ event r with value k i = s, weight i = 0 := by
      intro r
      apply sum_eq_zero
      intro i hi
      obtain ⟨hevent, hvalue⟩ := mem_filter.mp hi
      by_contra hne
      have hweight := lt_of_le_of_ne (h.weight_nonneg i) (Ne.symm hne)
      exact hnot (hvalue ▸ (h.next_pos hevent hweight).2 k hk)
    rw [h.mean_eq k hk s hs] at hpositive
    simp [hnone] at hpositive
  have hbound := log_sum_le hmean (fun s _ => h.prior_nonneg k hk s) hsupport
  rw [h.mean_sum hk, h.prior_sum k hk, log_one, sub_self, mul_zero] at hbound
  calc
    ∑ s ∈ values k, mean k s * (log (prior k s) - log (mean k s))
        = -∑ s ∈ values k, mean k s * (log (mean k s) - log (prior k s)) := by
          rw [← sum_neg_distrib]
          apply sum_congr rfl
          intro s _
          ring
    _ ≤ 0 := by linarith

theorem next_row_pos (h : MeanPosteriors event factors values value weight next prior mean)
    (r : ρ) : 0 < ∑ i ∈ event r, next i := by
  obtain ⟨i, hi, hne⟩ := exists_ne_zero_of_sum_ne_zero (h.row_pos r).ne'
  have hweight := lt_of_le_of_ne (h.weight_nonneg i) (Ne.symm hne)
  exact lt_of_lt_of_le (h.next_pos hi hweight).1 (single_le_sum (fun j _ => h.next_nonneg j) hi)

theorem total_loss (h : MeanPosteriors event factors values value weight next prior mean)
    [Nonempty ρ] :
    ∑ r, (log (∑ i ∈ event r, weight i) - log (∑ i ∈ event r, next i)) ≤ 0 := by
  have hcard : (0 : ℝ) < Fintype.card ρ := by
    exact_mod_cast Fintype.card_pos
  calc
    ∑ r, (log (∑ i ∈ event r, weight i) - log (∑ i ∈ event r, next i))
        ≤ ∑ r, ∑ k ∈ factors, ∑ s ∈ values k,
            (∑ i ∈ event r with value k i = s, weight i) / (∑ i ∈ event r, weight i) *
              (log (prior k s) - log (mean k s)) := sum_le_sum fun r _ => h.row_loss r
    _ = ∑ k ∈ factors, Fintype.card ρ *
          ∑ s ∈ values k, mean k s * (log (prior k s) - log (mean k s)) := by
        rw [sum_comm]
        apply sum_congr rfl
        intro k hk
        rw [sum_comm, mul_sum]
        apply sum_congr rfl
        intro s hs
        rw [← sum_mul, h.mean_eq k hk s hs, ← mul_assoc, mul_div_cancel₀ _ hcard.ne']
    _ ≤ 0 := sum_nonpos fun k hk => mul_nonpos_of_nonneg_of_nonpos hcard.le (h.factor_loss hk)

/-- With the mean posteriors as factors the rows weigh at least as much together. -/
theorem prod_rows_le (h : MeanPosteriors event factors values value weight next prior mean) :
    ∏ r, ∑ i ∈ event r, weight i ≤ ∏ r, ∑ i ∈ event r, next i := by
  rcases isEmpty_or_nonempty ρ with hempty | hnonempty
  · simp
  · have hloss := h.total_loss
    rw [sum_sub_distrib, ← log_prod fun r _ => (h.row_pos r).ne',
      ← log_prod fun r _ => (h.next_row_pos r).ne', sub_nonpos] at hloss
    exact (log_le_log_iff (prod_pos fun r _ => h.row_pos r)
      (prod_pos fun r _ => h.next_row_pos r)).mp hloss

end MeanPosteriors

end DerivationBelief

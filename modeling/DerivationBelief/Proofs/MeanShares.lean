import DerivationBelief.Proofs.FittingRound
import Mathlib.Tactic

/-!
# Mean shares are distributions with the same support

The shares of the states of a variable under an explained row add up to one, and so do their means.
A mean is positive where an assignment that explains some row has the state, and zero where no
assignment with the state has a positive weight.  So a round of fitting explains exactly the rows
that were explained before.
-/

namespace DerivationBelief

namespace DenseTable

variable {card : Nat → Nat} {t : DenseTable ℚ}

theorem Fits.weightAt_single (ht : t.Fits card) {v : Nat} (hvars : t.vars = [v]) (a : Assignment) :
    t.weightAt a = t.value (a v) := by
  unfold weightAt
  rw [ht.cards_eq, hvars]
  simp [jointIndex]

end DenseTable

namespace TableNetwork

variable {n m : TableNetwork ℚ} {table : EvidenceTable} {params : List EstimatedFactor}
  {row : List (Option Bool)} {p : EstimatedFactor} {a : Assignment} {v s : Nat}

/-- The assignments that agree with a row. -/
def rowWorlds (n : TableNetwork ℚ) (table : EvidenceTable) (row : List (Option Bool)) :
    List Assignment :=
  n.worlds.filter (fun a => Agrees (rowEvidence table.vars row) (variablesOf n.factors) a)

theorem rowLikelihood_eq_sum (n : TableNetwork ℚ) (table : EvidenceTable)
    (row : List (Option Bool)) :
    n.rowLikelihood table row = ((n.rowWorlds table row).map (jointWeight n.factors)).sum := by
  unfold rowLikelihood
  rw [likelihood_eq_sum, sum_map_ite]
  rfl

theorem rowShare_eq_sum (n : TableNetwork ℚ) (table : EvidenceTable) (v s : Nat)
    (row : List (Option Bool)) :
    n.rowShare table v s row =
      (((n.rowWorlds table row).filter (fun a => a v = s)).map (jointWeight n.factors)).sum /
        n.rowLikelihood table row := by
  unfold rowShare stateWeight
  rw [totalWeight_eq_sum, sum_map_ite]
  unfold rowWorlds
  rw [List.filter_filter]
  simp only [Bool.decide_and, Bool.and_comm]
  rfl

theorem Regular.rowLikelihood_pos_iff (hn : n.Regular) :
    0 < n.rowLikelihood table row ↔
      ∃ a ∈ n.rowWorlds table row, 0 < jointWeight n.factors a := by
  unfold rowLikelihood rowWorlds
  rw [hn.likelihood_pos_iff]
  simp [and_assoc]

theorem inRange_of_mem_rowWorlds (ha : a ∈ n.rowWorlds table row) : InRange n.states a :=
  inRange_of_mem_worlds (List.mem_of_mem_filter ha)

/-! ## Shares -/

theorem mem_explained :
    row ∈ n.explained table ↔ row ∈ table.rows ∧ 0 < n.rowLikelihood table row := by
  simp [explained]

theorem Regular.rowShare_nonneg (hn : n.Regular) (v s : Nat) (hrow : row ∈ n.explained table) :
    0 ≤ n.rowShare table v s row := by
  rw [rowShare_eq_sum]
  apply div_nonneg _ (mem_explained.mp hrow).2.le
  apply List.sum_nonneg
  rw [List.forall_mem_map]
  exact fun a _ => hn.weight_nonneg a

/-- A state that explains a row has a positive share. -/
theorem Regular.rowShare_pos (hn : n.Regular) (v : Nat) (hrow : row ∈ n.explained table)
    (ha : a ∈ n.rowWorlds table row) (hweight : 0 < jointWeight n.factors a) :
    0 < n.rowShare table v (a v) row := by
  rw [rowShare_eq_sum]
  apply div_pos _ (mem_explained.mp hrow).2
  refine lt_of_lt_of_le hweight (List.single_le_sum ?_ _ ?_)
  · rw [List.forall_mem_map]
    exact fun b _ => hn.weight_nonneg b
  · apply List.mem_map_of_mem
    simp [ha]

theorem rowShare_eq_zero (hnever : ∀ a, InRange n.states a → a v = s → jointWeight n.factors a = 0)
    (row : List (Option Bool)) : n.rowShare table v s row = 0 := by
  rw [rowShare_eq_sum, List.sum_eq_zero, zero_div]
  rw [List.forall_mem_map]
  intro a ha
  obtain ⟨hmem, hstate⟩ := List.mem_filter.mp ha
  exact hnever a (inRange_of_mem_rowWorlds hmem) (of_decide_eq_true hstate)

theorem sum_rowShare (hrow : row ∈ n.explained table) (v : Nat) :
    ∑ s ∈ Finset.range (n.states v), n.rowShare table v s row = 1 := by
  have hstates : ∀ worlds : List Assignment, (∀ a ∈ worlds, a v < n.states v) →
      ∑ s ∈ Finset.range (n.states v),
          ((worlds.filter (fun a => a v = s)).map (jointWeight n.factors)).sum =
        (worlds.map (jointWeight n.factors)).sum := by
    intro worlds hworlds
    simp only [← sum_map_ite]
    rw [← sum_map_finset_sum]
    congr 1
    apply List.map_congr_left
    intro a ha
    rw [Finset.sum_ite_eq, if_pos (Finset.mem_range.mpr (hworlds a ha))]
  simp only [rowShare_eq_sum]
  rw [← Finset.sum_div, hstates _ fun a ha => inRange_of_mem_rowWorlds ha v,
    ← rowLikelihood_eq_sum, div_self (mem_explained.mp hrow).2.ne']

/-! ## Means -/

theorem Regular.mean_pos (hn : n.Regular) (v : Nat) (hrow : row ∈ n.explained table)
    (ha : a ∈ n.rowWorlds table row) (hweight : 0 < jointWeight n.factors a) :
    0 < n.mean table v (a v) := by
  have hcount : (0 : ℚ) < (n.explained table).length := by
    exact_mod_cast List.length_pos_of_mem hrow
  apply div_pos _ hcount
  refine lt_of_lt_of_le (hn.rowShare_pos v hrow ha hweight) (List.single_le_sum ?_ _ ?_)
  · rw [List.forall_mem_map]
    exact fun other hother => hn.rowShare_nonneg v _ hother
  · exact List.mem_map_of_mem hrow

theorem mean_eq_zero (hnever : ∀ a, InRange n.states a → a v = s → jointWeight n.factors a = 0) :
    n.mean table v s = 0 := by
  unfold mean
  rw [List.sum_eq_zero, zero_div]
  rw [List.forall_mem_map]
  exact fun row _ => rowShare_eq_zero hnever row

theorem sum_mean (hexplained : n.explained table ≠ []) (v : Nat) :
    ∑ s ∈ Finset.range (n.states v), n.mean table v s = 1 := by
  have hcount : ((n.explained table).length : ℚ) ≠ 0 := by
    exact_mod_cast mt List.length_eq_zero_iff.mp hexplained
  have hshares : (n.explained table).map
      (fun row => ∑ s ∈ Finset.range (n.states v), n.rowShare table v s row) =
        (n.explained table).map (fun _ => 1) :=
    List.map_congr_left fun row hrow => sum_rowShare hrow v
  unfold mean
  rw [← Finset.sum_div, ← sum_map_finset_sum, hshares]
  simp [hcount]

/-! ## The support of the new tables -/

/-- A value that was zero has a mean of zero. -/
theorem Fittable.mean_of_zero (h : n.Fittable table params) (hp : p ∈ params) {t : DenseTable ℚ}
    (ht : n.tables[p.factor]? = some t) (hzero : t.value s = 0) : n.mean table p.var s = 0 := by
  obtain ⟨named, hnamed, hvars⟩ := h.named p hp
  cases hnamed.symm.trans ht
  have hmem := List.mem_of_getElem? ht
  apply mean_eq_zero
  intro a _ hstate
  have hweight : t.weightAt a = 0 := by
    rw [(h.regular.fits t hmem).weightAt_single hvars, hstate, hzero]
  by_contra hne
  have hpositive := lt_of_le_of_ne (h.regular.weight_nonneg a) (Ne.symm hne)
  exact (h.regular.weight_pos_iff.mp hpositive t hmem).ne' hweight

end TableNetwork

end DerivationBelief

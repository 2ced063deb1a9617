import DerivationBelief.Proofs.ExpectationAscent
import DerivationBelief.Proofs.FittingNetwork
import Mathlib.Algebra.BigOperators.Fin
import Mathlib.Data.Rat.BigOperators
import Mathlib.Tactic

/-!
# Fitting never lowers the likelihood

In every round the parameters become the mean posteriors of the explained rows.  The weight of an
assignment has the values of the parameters among its factors, so the product of what the explained
rows weigh does not become smaller.
-/

namespace DerivationBelief

open Finset

/-! ## Lists as indexed families -/

theorem sum_filter_getElem {β : Type} (items : List β) (property : β → Prop)
    [DecidablePred property] (f : β → ℝ) :
    ∑ i : Fin items.length with property items[i.1], f items[i.1] =
      ((items.filter (fun b => property b)).map f).sum := by
  rw [sum_filter, Fin.sum_univ_fun_getElem items (fun b => if property b then f b else 0),
    sum_map_ite]

theorem prod_range_getElem {β : Type} (items : List β) (f : β → ℚ) :
    ∏ i ∈ range items.length, (items[i]?.map f).getD 1 = (items.map f).prod := by
  rw [prod_range, ← Fin.prod_univ_fun_getElem]
  apply prod_congr rfl
  intro i _
  simp

theorem DenseTable.total_eq_sum (t : DenseTable ℚ) :
    t.total = ∑ s ∈ range t.values.size, t.value s := by
  rw [total_eq, ← Fin.sum_univ_getElem, sum_range]
  simp [value]

namespace TableNetwork

variable {n m : TableNetwork ℚ} {table : EvidenceTable} {params : List EstimatedFactor}
  {row : List (Option Bool)} {p : EstimatedFactor} {a : Assignment}

/-- The value of a state of a parameter. -/
def parameterValue (n : TableNetwork ℚ) (p : EstimatedFactor) (s : Nat) : ℚ :=
  (n.tables[p.factor]?.map (fun t => t.value s)).getD 0

/-- The weight of one table, and one where there is none. -/
def tableWeight (n : TableNetwork ℚ) (a : Assignment) (i : Nat) : ℚ :=
  (n.tables[i]?.map (fun t => t.weightAt a)).getD 1

theorem jointWeight_eq_prod (n : TableNetwork ℚ) (a : Assignment) :
    jointWeight n.factors a = ∏ i ∈ range n.tables.length, n.tableWeight a i := by
  rw [jointWeight_factors, weightOf, ← prod_range_getElem]
  rfl

theorem Fittable.tableWeight_eq (h : n.Fittable table params) (hp : p ∈ params) (a : Assignment) :
    n.tableWeight a p.factor = n.parameterValue p (a p.var) := by
  obtain ⟨t, ht, hvars⟩ := h.named p hp
  unfold tableWeight parameterValue
  rw [ht, Option.map_some, Option.map_some, Option.getD_some, Option.getD_some,
    (h.regular.fits t (List.mem_of_getElem? ht)).weightAt_single hvars]

/-- The weights of the named tables and those of the others. -/
theorem jointWeight_split (n : TableNetwork ℚ) (hnodup : (params.map EstimatedFactor.factor).Nodup)
    (hplaces : ∀ p ∈ params, p.factor < n.tables.length) (a : Assignment) :
    jointWeight n.factors a =
      (∏ i ∈ range n.tables.length with i ∉ params.map EstimatedFactor.factor, n.tableWeight a i) *
        ∏ p ∈ params.toFinset, n.tableWeight a p.factor := by
  have hnamed : (range n.tables.length).filter (fun i => i ∈ params.map EstimatedFactor.factor) =
      params.toFinset.image EstimatedFactor.factor := by
    ext i
    simp only [mem_filter, mem_range, List.mem_map, mem_image, List.mem_toFinset]
    constructor
    · exact fun hi => hi.2
    · rintro ⟨p, hp, rfl⟩
      exact ⟨hplaces p hp, p, hp, rfl⟩
  have hinjective : Set.InjOn EstimatedFactor.factor params.toFinset := by
    intro p hp q hq hfactor
    exact List.inj_on_of_nodup_map hnodup (List.mem_toFinset.mp hp) (List.mem_toFinset.mp hq)
      hfactor
  rw [jointWeight_eq_prod, ← prod_filter_mul_prod_filter_not _
    (fun i => i ∈ params.map EstimatedFactor.factor), hnamed, prod_image hinjective, mul_comm]

namespace Refits

theorem length_eq (h : n.Refits table params m) : m.tables.length = n.tables.length := by
  have hlength := congrArg List.length h.alike.outlines_eq
  unfold DenseTable.outlines at hlength
  rw [List.length_map, List.length_map] at hlength
  exact hlength.symm

/-- The means take the places of the values in the weight of an assignment.  Values may be zero, so
both sides are multiplied and none is divided. -/
theorem weight_mul (h : n.Refits table params m)
    (hnodup : (params.map EstimatedFactor.factor).Nodup) (ha : InRange n.states a) :
    jointWeight m.factors a * ∏ p ∈ params.toFinset, n.parameterValue p (a p.var) =
      jointWeight n.factors a * ∏ p ∈ params.toFinset, n.mean table p.var (a p.var) := by
  have hplaces : ∀ p ∈ params, p.factor < n.tables.length := by
    intro p hp
    obtain ⟨t, ht, _⟩ := h.before.named p hp
    exact (List.getElem?_eq_some_iff.mp ht).1
  have hplacesAfter : ∀ p ∈ params, p.factor < m.tables.length := by
    rw [h.length_eq]
    exact hplaces
  have hothers : ∏ i ∈ range n.tables.length with i ∉ params.map EstimatedFactor.factor,
        m.tableWeight a i =
      ∏ i ∈ range n.tables.length with i ∉ params.map EstimatedFactor.factor,
        n.tableWeight a i := by
    apply prod_congr rfl
    intro i hi
    unfold tableWeight
    rw [h.values.unnamed i (mem_filter.mp hi).2]
  have hbefore : ∏ p ∈ params.toFinset, n.tableWeight a p.factor =
      ∏ p ∈ params.toFinset, n.parameterValue p (a p.var) :=
    prod_congr rfl fun p hp => h.before.tableWeight_eq (List.mem_toFinset.mp hp) a
  have hafter : ∏ p ∈ params.toFinset, m.tableWeight a p.factor =
      ∏ p ∈ params.toFinset, n.mean table p.var (a p.var) := by
    apply prod_congr rfl
    intro p hp
    obtain ⟨t, ht, _⟩ := h.after.named p (List.mem_toFinset.mp hp)
    rw [← h.named_weight (List.mem_toFinset.mp hp) ht ha]
    unfold tableWeight
    rw [ht]
    rfl
  rw [jointWeight_split n hnodup hplaces, jointWeight_split m hnodup hplacesAfter, h.length_eq,
    hothers, hbefore, hafter]
  ring

end Refits

/-! ## The explained rows as events -/

/-- The places of the assignments that agree with an explained row. -/
def rowEvent (n : TableNetwork ℚ) (table : EvidenceTable)
    (r : Fin (n.explained table).length) : Finset (Fin n.worlds.length) :=
  {i | Agrees (rowEvidence table.vars (n.explained table)[r.1]) (variablesOf n.factors)
    n.worlds[i.1]}

theorem sum_rowEvent (n : TableNetwork ℚ) (table : EvidenceTable)
    (r : Fin (n.explained table).length) (weight : Assignment → ℚ) :
    ∑ i ∈ n.rowEvent table r, (weight n.worlds[i.1] : ℝ) =
      (((n.rowWorlds table (n.explained table)[r.1]).map weight).sum : ℚ) := by
  unfold rowEvent rowWorlds
  rw [sum_filter_getElem n.worlds _ (fun a => (weight a : ℝ)), Rat.cast_list_sum, List.map_map]
  rfl

theorem sum_rowEvent_state (n : TableNetwork ℚ) (table : EvidenceTable)
    (r : Fin (n.explained table).length) (weight : Assignment → ℚ) (v s : Nat) :
    ∑ i ∈ n.rowEvent table r with n.worlds[i.1] v = s, (weight n.worlds[i.1] : ℝ) =
      ((((n.rowWorlds table (n.explained table)[r.1]).filter (fun a => a v = s)).map
        weight).sum : ℚ) := by
  unfold rowEvent rowWorlds
  rw [filter_filter, sum_filter_getElem n.worlds (fun a => Agrees
    (rowEvidence table.vars (n.explained table)[r.1]) (variablesOf n.factors) a ∧ a v = s)
    (fun a => (weight a : ℝ)), List.filter_filter, Rat.cast_list_sum, List.map_map]
  simp only [Bool.decide_and, Bool.and_comm]
  rfl

theorem Fittable.sum_parameterValue (h : n.Fittable table params) (hp : p ∈ params)
    (hdistributed : n.Distributed params) :
    ∑ s ∈ range (n.states p.var), n.parameterValue p s = 1 := by
  obtain ⟨t, ht, _⟩ := h.named p hp
  rw [← hdistributed p hp t ht, t.total_eq_sum, h.size_eq hp ht]
  unfold parameterValue
  rw [ht]
  rfl

theorem Fittable.parameterValue_nonneg (h : n.Fittable table params) (hp : p ∈ params) (s : Nat) :
    0 ≤ n.parameterValue p s := by
  obtain ⟨t, ht, _⟩ := h.named p hp
  have hnonneg : t.Nonnegative := DenseTable.nonnegative_iff.mpr
    (h.regular.nonneg t (List.mem_of_getElem? ht))
  unfold parameterValue
  rw [ht]
  exact hnonneg s

theorem cast_mean (n : TableNetwork ℚ) (table : EvidenceTable) (v s : Nat) :
    (n.mean table v s : ℝ) =
      (∑ r, (∑ i ∈ n.rowEvent table r with n.worlds[i.1] v = s,
          (jointWeight n.factors n.worlds[i.1] : ℝ)) /
        ∑ i ∈ n.rowEvent table r, (jointWeight n.factors n.worlds[i.1] : ℝ)) /
          Fintype.card (Fin (n.explained table).length) := by
  have hshares : ∑ r : Fin (n.explained table).length,
      (∑ i ∈ n.rowEvent table r with n.worlds[i.1] v = s,
          (jointWeight n.factors n.worlds[i.1] : ℝ)) /
        ∑ i ∈ n.rowEvent table r, (jointWeight n.factors n.worlds[i.1] : ℝ) =
      ∑ r : Fin (n.explained table).length,
        (n.rowShare table v s (n.explained table)[r.1] : ℝ) := by
    apply sum_congr rfl
    intro r _
    rw [sum_rowEvent_state, sum_rowEvent, ← rowLikelihood_eq_sum, rowShare_eq_sum, Rat.cast_div]
  rw [hshares, Fin.sum_univ_fun_getElem (n.explained table)
    (fun row => (n.rowShare table v s row : ℝ)), Fintype.card_fin]
  unfold mean
  rw [Rat.cast_div, Rat.cast_list_sum, List.map_map, Rat.cast_natCast]
  rfl

namespace Refits

/-- The means of a round are mean posteriors of the explained rows. -/
theorem meanPosteriors (h : n.Refits table params m)
    (hnodup : (params.map EstimatedFactor.factor).Nodup) (hdistributed : n.Distributed params) :
    MeanPosteriors (n.rowEvent table) params.toFinset (fun p => range (n.states p.var))
      (fun p i => n.worlds[i.1] p.var) (fun i => (jointWeight n.factors n.worlds[i.1] : ℝ))
      (fun i => (jointWeight m.factors n.worlds[i.1] : ℝ)) (fun p s => (n.parameterValue p s : ℝ))
      (fun p s => (n.mean table p.var s : ℝ)) := by
  have hinRange : ∀ i : Fin n.worlds.length, InRange n.states n.worlds[i.1] :=
    fun i => inRange_of_mem_worlds (List.getElem_mem i.2)
  constructor
  case weight_nonneg => exact fun i => Rat.cast_nonneg.mpr (h.before.regular.weight_nonneg _)
  case next_nonneg => exact fun i => Rat.cast_nonneg.mpr (h.after.regular.weight_nonneg _)
  case prior_nonneg =>
    intro p hp s
    exact Rat.cast_nonneg.mpr (h.before.parameterValue_nonneg (List.mem_toFinset.mp hp) s)
  case prior_sum =>
    intro p hp
    exact_mod_cast h.before.sum_parameterValue (List.mem_toFinset.mp hp) hdistributed
  case value_mem => exact fun p _ r i _ => mem_range.mpr (hinRange i p.var)
  case row_pos =>
    intro r
    rw [sum_rowEvent, ← rowLikelihood_eq_sum]
    exact Rat.cast_pos.mpr (mem_explained.mp (List.getElem_mem r.2)).2
  case mean_eq => exact fun p _ s _ => n.cast_mean table p.var s
  case next_eq =>
    intro r i _
    exact_mod_cast h.weight_mul hnodup (hinRange i)

/-- One round does not lower the likelihood of the explained rows. -/
theorem prod_likelihood_le (h : n.Refits table params m)
    (hnodup : (params.map EstimatedFactor.factor).Nodup) (hdistributed : n.Distributed params) :
    ((n.explained table).map (n.rowLikelihood table)).prod ≤
      ((n.explained table).map (m.rowLikelihood table)).prod := by
  have hbefore : ∏ r, ∑ i ∈ n.rowEvent table r, (jointWeight n.factors n.worlds[i.1] : ℝ) =
      (((n.explained table).map (n.rowLikelihood table)).prod : ℚ) := by
    simp only [sum_rowEvent, ← rowLikelihood_eq_sum]
    rw [Fin.prod_univ_fun_getElem (n.explained table)
      (fun row => (n.rowLikelihood table row : ℝ)), Rat.cast_list_prod, List.map_map]
    rfl
  have hafter : ∏ r, ∑ i ∈ n.rowEvent table r, (jointWeight m.factors n.worlds[i.1] : ℝ) =
      (((n.explained table).map (m.rowLikelihood table)).prod : ℚ) := by
    simp only [sum_rowEvent, ← h.rowWorlds_eq, ← rowLikelihood_eq_sum]
    rw [Fin.prod_univ_fun_getElem (n.explained table)
      (fun row => (m.rowLikelihood table row : ℝ)), Rat.cast_list_prod, List.map_map]
    rfl
  have hrows := (h.meanPosteriors hnodup hdistributed).prod_rows_le
  rw [hbefore, hafter] at hrows
  exact_mod_cast hrows

end Refits

/-! ## Every round -/

/-- One more round leaves the network, or maximises it once more. -/
theorem fitRounds_succ (tolerance : ℚ) (table : EvidenceTable) (params : List EstimatedFactor)
    (overtime : Nat → Bool) (rounds : Nat) (n : TableNetwork ℚ) :
    (fitRounds tolerance table params overtime (rounds + 1) n).2 =
        (fitRounds tolerance table params overtime rounds n).2 ∨
      ∃ e, (fitRounds tolerance table params overtime rounds n).2.expect table params = .ok e ∧
        (fitRounds tolerance table params overtime (rounds + 1) n).2 =
          ((fitRounds tolerance table params overtime rounds n).2.maximise params e).model := by
  induction rounds generalizing overtime n with
  | zero =>
      have hstart : fitRounds tolerance table params overtime 0 n = (.ok (), n) := rfl
      rw [hstart, fitRounds.eq_2 tolerance table params overtime n 0]
      split
      next => exact Or.inl rfl
      next =>
        cases n.expect table params with
        | error fault => exact Or.inl rfl
        | ok e =>
            dsimp only
            split
            next => exact Or.inl rfl
            next =>
              refine Or.inr ⟨e, rfl, ?_⟩
              split
              next => rfl
              next => rfl
  | succ rounds ih =>
      rw [fitRounds.eq_2 tolerance table params overtime n (rounds + 1),
        fitRounds.eq_2 tolerance table params overtime n rounds]
      split
      next => exact Or.inl rfl
      next =>
        cases n.expect table params with
        | error fault => exact Or.inl rfl
        | ok e =>
            dsimp only
            split
            next => exact Or.inl rfl
            next =>
              split
              next => exact Or.inl rfl
              next => exact ih _ _

end TableNetwork

namespace ExactNetwork

open TableNetwork

variable {n : ExactNetwork ℚ} {table : EvidenceTable} {params : List EstimatedFactor}

/-- When the parameters are distributions of different tables, no round makes the rows that it can
explain less likely together.  A round that finds the time used up changes nothing. -/
theorem rounds_never_lower (hn : n.Reachable)
    (hbinary : ∀ v ∈ table.vars, 2 ≤ n.model.cards.getD v 0)
    (hnodup : (params.map EstimatedFactor.factor).Nodup)
    (hparams : ∀ p ∈ params, ∃ t, n.model.tables[p.factor]? = some t ∧ t.vars = [p.var] ∧
      t.total = 1) (tolerance : ℚ) (overtime : Nat → Bool) (rounds : Nat) :
    let before := (fitRounds tolerance table params overtime rounds n.model).2
    let after := (fitRounds tolerance table params overtime (rounds + 1) n.model).2
    ((before.explained table).map (before.rowLikelihood table)).prod ≤
      ((before.explained table).map (after.rowLikelihood table)).prod := by
  obtain ⟨hsound, _⟩ := hn.keeps
  have hnamed : ∀ p ∈ params, ∃ t, n.model.tables[p.factor]? = some t ∧ t.vars = [p.var] := by
    intro p hp
    obtain ⟨t, ht, hvars, _⟩ := hparams p hp
    exact ⟨t, ht, hvars⟩
  have hdistributed : n.model.Distributed params := by
    intro p hp t ht
    obtain ⟨other, hother, _, htotal⟩ := hparams p hp
    cases hother.symm.trans ht
    exact htotal
  dsimp only
  rcases hsound.idle_or_fittable hbinary hnamed with hidle | ⟨hsome, hfit⟩
  · rw [fitRounds_same hidle, fitRounds_same hidle]
  · have hbefore := (Follows.fitRounds hfit hsome tolerance overtime rounds).fittable
    have hstill := hfit.fitRounds_distributed hsome hdistributed tolerance overtime rounds
    rcases fitRounds_succ tolerance table params overtime rounds n.model with
      hsame | ⟨e, he, hnext⟩
    · rw [hsame]
    · rw [hnext]
      exact (hbefore.round hsome he).prod_likelihood_le hnodup hstill

/-- The second round of the triangle explains all three rows. -/
theorem triangle_never_lower :
    let inTime : Nat → Bool := fun _ => false
    let before := (fitRounds triangle.tolerance fullTable [⟨0, 0⟩] inTime 1 triangle.model).2
    let after := (fitRounds triangle.tolerance fullTable [⟨0, 0⟩] inTime 2 triangle.model).2
    (before.explained fullTable).length = 3 ∧
      ((before.explained fullTable).map (before.rowLikelihood fullTable)).prod ≤
        ((before.explained fullTable).map (after.rowLikelihood fullTable)).prod := by
  have hparams : ∀ p ∈ [(⟨0, 0⟩ : EstimatedFactor)], ∃ t,
      triangle.model.tables[p.factor]? = some t ∧ t.vars = [p.var] ∧ t.total = 1 := by
    intro p hp
    rw [List.mem_singleton.mp hp]
    refine ⟨_, rfl, rfl, ?_⟩
    decide +kernel
  constructor
  · decide +kernel
  · exact rounds_never_lower triangle_reachable (triangleOf_binary _ _ rfl) (by decide) hparams _
      _ 1

end ExactNetwork

end DerivationBelief

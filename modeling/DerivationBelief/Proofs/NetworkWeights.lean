import DerivationBelief.Proofs.EvidenceLookups
import DerivationBelief.Proofs.ExactInference
import Mathlib.Tactic

/-!
# What the tables of a network weigh

The tables of a network, whatever rounds of fitting have made of them, are factors again, and its
beliefs are shares of what these factors weigh.  The evidence weighs as much as the listed
assignments that agree with it, so it has a positive weight when one of them has.
-/

namespace DerivationBelief

variable {card : Nat → Nat}

/-! ## Listing assignments -/

/-- The assignments of states to some variables.  The others keep their states. -/
def assignments (card : Nat → Nat) : List Nat → Assignment → List Assignment
  | [], a => [a]
  | v :: vars, a =>
      (assignments card vars a).flatMap (fun b =>
        (List.range (card v)).map (fun s => Function.update b v s))

theorem sumStates_eq_sum (vars : List Nat) (weight : Assignment → ℚ) (a : Assignment) :
    sumStates card vars weight a = ((assignments card vars a).map weight).sum := by
  induction vars generalizing weight with
  | nil => simp [sumStates, assignments]
  | cons v vars ih =>
      have hstate : sumState card v weight =
          fun b => ((List.range (card v)).map (fun s => weight (Function.update b v s))).sum := by
        funext b
        rw [sumState, sum_map_range]
      rw [sumStates, ih, assignments, List.map_flatMap, List.flatMap_def, List.sum_flatten,
        List.map_map, hstate]
      simp [Function.comp_def]

theorem inRange_of_mem_assignments {vars : List Nat} {a b : Assignment} (ha : InRange card a)
    (hb : b ∈ assignments card vars a) : InRange card b := by
  induction vars generalizing b with
  | nil =>
      rw [assignments, List.mem_singleton] at hb
      exact hb ▸ ha
  | cons v vars ih =>
      obtain ⟨c, hc, hmem⟩ := List.mem_flatMap.mp hb
      obtain ⟨s, hs, rfl⟩ := List.mem_map.mp hmem
      exact (ih hc).update (List.mem_range.mp hs)

theorem totalWeight_eq_sum (factors : List (Factor Nat ℚ)) (property : Assignment → Prop)
    [DecidablePred property] :
    totalWeight card factors property =
      ((assignments card (variablesOf factors) firstStates).map
        (fun a => if property a then jointWeight factors a else 0)).sum :=
  sumStates_eq_sum _ _ _

/-! ## Tables as factors -/

theorem entryWeight_zipIdx (weights : List ℚ) (state : Nat) :
    entryWeight (weights.zipIdx.map (fun entry => (entry.2, entry.1))) state =
      weights.getD state 0 := by
  by_cases hstate : state < weights.length
  · have hblock : entryWeight (weights.zipIdx.flatMap (fun e => [(e.2, e.1)])) state =
        entryWeight [(0 + state, weights[state])] state := by
      apply entryWeight_block (fun w k => [(k, w)]) (List.getElem?_eq_getElem hstate)
      intro w k hk entry hentry
      rw [List.mem_singleton.mp hentry]
      omega
    rw [List.map_eq_flatMap, hblock]
    simp [entryWeight, hstate]
  · have hother : ∀ entry ∈ weights.zipIdx.map (fun entry => (entry.2, entry.1)),
        entry.1 ≠ state := by
      intro entry hentry
      obtain ⟨⟨w, k⟩, hmem, rfl⟩ := List.mem_map.mp hentry
      have hlt := List.snd_lt_of_mem_zipIdx hmem
      dsimp only
      omega
    rw [entryWeight, foldl_of_other_states hother]
    simp [Nat.le_of_not_lt hstate]

namespace DenseTable

def toFactor (t : DenseTable ℚ) : Factor Nat ℚ :=
  ⟨t.vars, t.cards, t.values.toList.zipIdx.map (fun entry => (entry.2, entry.1))⟩

theorem toFactor_weightAt (t : DenseTable ℚ) (a : Assignment) :
    t.toFactor.weightAt a = t.weightAt a := by
  unfold Factor.weightAt weightAt toFactor value
  rw [entryWeight_zipIdx, Array.getD_eq_getD_getElem?, List.getD_eq_getElem?_getD,
    Array.getElem?_toList]

end DenseTable

namespace TableNetwork

/-- The number of states of a variable.  One that no table mentions has a single state. -/
def states (n : TableNetwork ℚ) (v : Nat) : Nat :=
  max 1 (n.cards.getD v 0)

def factors (n : TableNetwork ℚ) : List (Factor Nat ℚ) :=
  n.tables.map DenseTable.toFactor

/-- What all states that agree with the evidence weigh together. -/
def likelihood (n : TableNetwork ℚ) (evidence : Evidence) : ℚ :=
  evidenceWeight n.states n.factors evidence

/-- Every table has a value for each joint state of its variables, and no value is negative. -/
structure Regular (n : TableNetwork ℚ) : Prop where
  fits : ∀ t ∈ n.tables, t.Fits n.states
  known : ∀ t ∈ n.tables, ∀ v ∈ t.vars, 0 < n.cards.getD v 0
  nonneg : ∀ t ∈ n.tables, ∀ x ∈ t.values.toList, 0 ≤ x

variable {n : TableNetwork ℚ} {evidence : Evidence} {a : Assignment}

theorem states_pos (n : TableNetwork ℚ) (v : Nat) : 0 < n.states v :=
  lt_max_of_lt_left Nat.one_pos

theorem mem_variablesOf_factors {v : Nat} :
    v ∈ variablesOf n.factors ↔ ∃ t ∈ n.tables, v ∈ t.vars := by
  simp [mem_variablesOf, factors, DenseTable.toFactor]

theorem jointWeight_factors (n : TableNetwork ℚ) (a : Assignment) :
    jointWeight n.factors a = weightOf n.tables a := by
  simp [jointWeight, factors, weightOf, Function.comp_def, DenseTable.toFactor_weightAt]

/-- Beliefs are shares of what the tables weigh now. -/
theorem Regular.holds (hn : n.Regular) : n.Holds n.states n.factors := by
  constructor
  case fits => exact hn.fits
  case scope => exact fun v => mem_variablesOf_factors.symm
  case weight => exact fun a _ => (n.jointWeight_factors a).symm
  case cards =>
    intro v hv
    obtain ⟨t, ht, hmem⟩ := mem_variablesOf_factors.mp hv
    have hknown := hn.known t ht v hmem
    unfold states
    omega

theorem Regular.belief_exact_shares (hn : n.Regular) (hevidence : evidence.Below n.states) {v : Nat}
    (hv : v ∈ variablesOf n.factors) :
    ExactBelief n.limit n.states n.factors evidence v (n.belief evidence v) := by
  obtain ⟨order, horder, hgreedy⟩ := belief_eq_inOrder hn.holds hevidence v
  rw [hgreedy]
  exact beliefInOrder_spec n.states_pos hn.holds hevidence hv horder

/-! ## Positive weights -/

theorem Regular.weightAt_nonneg (hn : n.Regular) {t : DenseTable ℚ} (ht : t ∈ n.tables)
    (a : Assignment) : 0 ≤ t.weightAt a := by
  unfold DenseTable.weightAt DenseTable.value
  rw [Array.getD_eq_getD_getElem?, ← Array.getElem?_toList]
  cases hvalue : t.values.toList[jointIndex t.cards (t.vars.map a)]? with
  | none => exact le_refl _
  | some x => exact hn.nonneg t ht x (List.mem_of_getElem? hvalue)

theorem Regular.weight_nonneg (hn : n.Regular) (a : Assignment) : 0 ≤ jointWeight n.factors a := by
  rw [jointWeight_factors]
  apply List.prod_nonneg
  rw [List.forall_mem_map]
  exact fun t ht => hn.weightAt_nonneg ht a

theorem Regular.weight_pos_iff (hn : n.Regular) :
    0 < jointWeight n.factors a ↔ ∀ t ∈ n.tables, 0 < t.weightAt a := by
  rw [(hn.weight_nonneg a).lt_iff_ne, jointWeight_factors, weightOf, ne_comm, Ne,
    List.prod_eq_zero_iff, List.mem_map]
  constructor
  · intro hnone t ht
    exact lt_of_le_of_ne (hn.weightAt_nonneg ht a) fun hzero => hnone ⟨t, ht, hzero.symm⟩
  · rintro hall ⟨t, ht, hzero⟩
    exact (hall t ht).ne' hzero

/-- The assignments that the variables of a network range over. -/
def worlds (n : TableNetwork ℚ) : List Assignment :=
  assignments n.states (variablesOf n.factors) firstStates

theorem inRange_of_mem_worlds (ha : a ∈ n.worlds) : InRange n.states a :=
  inRange_of_mem_assignments (firstStates_inRange n.states_pos) ha

theorem likelihood_eq_sum (n : TableNetwork ℚ) (evidence : Evidence) :
    n.likelihood evidence = (n.worlds.map (fun a =>
      if Agrees evidence (variablesOf n.factors) a then jointWeight n.factors a else 0)).sum :=
  totalWeight_eq_sum _ _

theorem Regular.likelihood_pos_iff (hn : n.Regular) :
    0 < n.likelihood evidence ↔ ∃ a ∈ n.worlds, Agrees evidence (variablesOf n.factors) a ∧
      0 < jointWeight n.factors a := by
  have hnonneg : ∀ x ∈ n.worlds.map (fun a =>
      if Agrees evidence (variablesOf n.factors) a then jointWeight n.factors a else 0), 0 ≤ x := by
    rw [List.forall_mem_map]
    intro a _
    split
    · exact hn.weight_nonneg a
    · exact le_refl 0
  rw [likelihood_eq_sum]
  constructor
  · intro hpositive
    by_contra hnone
    push Not at hnone
    refine hpositive.ne' (List.sum_eq_zero ?_)
    rw [List.forall_mem_map]
    intro a ha
    split
    next hagrees => exact le_antisymm (hnone a ha hagrees) (hn.weight_nonneg a)
    next => rfl
  · rintro ⟨a, ha, hagrees, hweight⟩
    refine lt_of_lt_of_le hweight (List.single_le_sum hnonneg _ ?_)
    exact List.mem_map.mpr ⟨a, ha, if_pos hagrees⟩

end TableNetwork

end DerivationBelief

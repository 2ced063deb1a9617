import DerivationBelief.FactorGraph
import DerivationBelief.Proofs.FaultyRuns
import Mathlib.Tactic

/-!
# No factor is wider than the limit

A pass over a body that is too wide makes it shorter, so splitting ends with a body within the limit.
A factor of a compiled graph therefore has at most one variable more than the limit on clauses.
-/

namespace DerivationBelief

variable {α : Type} [Scalar α] {width limit : Nat}

namespace Splitting

/-- The number of body nodes for which a derivation has room: a control takes that of one. -/
def bodyRoom (limit : Nat) (control : Option Slot) : Nat :=
  if control.isSome then limit - 1 else limit

theorem bodyRoom_add (control : Option Slot) (hlimit : 1 ≤ limit) :
    bodyRoom limit control + control.toList.length = limit := by
  cases control with
  | none => simp [bodyRoom]
  | some slot =>
      simp only [bodyRoom, Option.isSome_some, if_true, Option.toList_some, List.length_singleton]
      exact Nat.sub_add_cancel hlimit

theorem le_bodyRoom_add_one (limit : Nat) (control : Option Slot) :
    limit ≤ bodyRoom limit control + 1 := by
  unfold bodyRoom
  split <;> omega

/-! ## One pass -/

/-- One pass over a body: a phony node for every full group, and the nodes behind the last group. -/
def pass (connective : Connective) (width next : Nat) (body : List Slot) : Splitting α :=
  let groups := List.range (body.length / width)
  { body := groups.map (fun i => .own (next + i)) ++ body.drop (width * (body.length / width))
    factors := groups.map (fun i =>
      .clause connective (.own (next + i)) none ((body.drop (width * i)).take width))
    next := next + body.length / width }

theorem group_eq_pass (connective : Connective) (hwidth : 0 < width) {fuel : Nat} (next : Nat)
    {body : List Slot} (hfuel : body.length ≤ fuel) :
    group connective width fuel next body = (pass connective width next body : Splitting α) := by
  induction fuel generalizing next body with
  | zero =>
      rw [Nat.le_zero, List.length_eq_zero_iff] at hfuel
      subst body
      simp [group, pass]
  | succ fuel ih =>
      unfold group
      by_cases hshort : body.length < width
      · rw [if_pos hshort]
        simp [pass, Nat.div_eq_of_lt hshort]
      · have hrest : (body.drop width).length ≤ fuel := by
          rw [List.length_drop]
          omega
        have hgroups : body.length / width = (body.drop width).length / width + 1 := by
          rw [List.length_drop, ← Nat.add_div_right _ hwidth, Nat.sub_add_cancel (by omega)]
        have hnext : ∀ i, next + 1 + i = next + (i + 1) := fun i => by omega
        have hplace : ∀ i, width + width * i = width * (i + 1) := fun i => by
          rw [Nat.mul_succ, Nat.add_comm]
        rw [if_neg hshort, ih (next + 1) hrest]
        simp only [pass, hgroups, List.range_succ_eq_map, List.map_cons, List.map_map,
          List.drop_drop, List.cons_append, hnext, hplace, Nat.mul_zero, Nat.add_zero,
          List.drop_zero, Function.comp_def]

theorem pass_body_length (connective : Connective) (width next : Nat) (body : List Slot) :
    (pass connective width next body : Splitting α).body.length =
      body.length / width + body.length % width := by
  have hsplit := Nat.div_add_mod body.length width
  simp only [pass, List.length_append, List.length_map, List.length_range, List.length_drop]
  omega

/-- A pass over a body with a full group makes it shorter. -/
theorem pass_body_length_lt (connective : Connective) (hwidth : 2 ≤ width) (next : Nat)
    {body : List Slot} (hwide : width ≤ body.length) :
    (pass connective width next body : Splitting α).body.length < body.length := by
  have hgroup : 0 < body.length / width := Nat.div_pos hwide (by omega)
  have hsplit := Nat.div_add_mod body.length width
  have hdouble : 2 * (body.length / width) ≤ width * (body.length / width) :=
    Nat.mul_le_mul_right _ hwidth
  rw [pass_body_length]
  omega

theorem pass_body_ne_nil (connective : Connective) (width next : Nat)
    {body : List Slot} (hbody : body ≠ []) :
    (pass connective width next body : Splitting α).body ≠ [] := by
  have hpositive := List.length_pos_iff.mpr hbody
  have hsplit := Nat.div_add_mod body.length width
  rw [← List.length_pos_iff, pass_body_length]
  rcases Nat.eq_zero_or_pos (body.length / width) with hzero | hgroup
  · rw [hzero, mul_zero] at hsplit
    omega
  · exact Nat.add_pos_left hgroup _

/-- A factor of a pass is the clause of a full group. -/
theorem pass_factor (connective : Connective) (width next : Nat) (body : List Slot) :
    ∀ t ∈ (pass connective width next body : Splitting α).factors,
      ∃ head inner, inner.length = width ∧ t = .clause connective head none inner := by
  unfold pass
  rw [List.forall_mem_map]
  intro i hi
  refine ⟨.own (next + i), (body.drop (width * i)).take width, ?_, rfl⟩
  have hgroup : width * (i + 1) ≤ width * (body.length / width) :=
    Nat.mul_le_mul_left _ (List.mem_range.mp hi)
  have hfull := Nat.mul_div_le body.length width
  rw [Nat.mul_succ] at hgroup
  rw [List.length_take, List.length_drop]
  omega

/-! ## Passes until the body is narrow -/

/-- The passes over a body: one that is within the limit is kept, a wider one takes a pass more. -/
inductive Passes (connective : Connective) (width limit : Nat) :
    Nat → List Slot → Splitting α → Prop where
  | done {next : Nat} {body : List Slot} (hnarrow : body.length ≤ limit) :
      Passes connective width limit next body ⟨body, [], next⟩
  | more {next : Nat} {body : List Slot} {rest : Splitting α} (hwide : limit < body.length)
      (hrest : Passes connective width limit (pass connective width next body : Splitting α).next
        (pass connective width next body : Splitting α).body rest) :
      Passes connective width limit next body
        { rest with factors := (pass connective width next body).factors ++ rest.factors }

/-- Every body is narrow after some passes, and splitting makes as many. -/
theorem split_passes (connective : Connective) (hwidth : 2 ≤ width) (hlimit : width ≤ limit + 1)
    {fuel : Nat} (next : Nat) {body : List Slot} (hfuel : body.length ≤ fuel + limit) :
    Passes connective width limit next body
      (split connective width limit fuel next body : Splitting α) := by
  induction fuel generalizing next body with
  | zero => exact .done (by omega)
  | succ fuel ih =>
      unfold split
      by_cases hnarrow : body.length ≤ limit
      · rw [if_pos hnarrow]
        exact .done hnarrow
      · rw [if_neg hnarrow, group_eq_pass connective (by omega) next le_rfl]
        have hpass := pass_body_length_lt (α := α) connective hwidth next
          (show width ≤ body.length by omega)
        exact .more (Nat.lt_of_not_le hnarrow) (ih _ (by omega))

theorem ofBody_passes (connective : Connective) (hwidth : 2 ≤ width) (hlimit : width ≤ limit + 1)
    (next : Nat) (body : List Slot) :
    Passes connective width limit next body
      (ofBody connective width limit next body : Splitting α) :=
  split_passes connective hwidth hlimit next (Nat.le_add_right _ limit)

namespace Passes

variable {connective : Connective} {next : Nat} {body : List Slot} {s : Splitting α}

theorem unique {r : Splitting α} (hr : Passes connective width limit next body r)
    (hs : Passes connective width limit next body s) : r = s := by
  induction hr generalizing s with
  | done hnarrow =>
      cases hs with
      | done => rfl
      | more hwide => exact absurd hnarrow (Nat.not_le.mpr hwide)
  | more hwide _ ih =>
      cases hs with
      | done hnarrow => exact absurd hnarrow (Nat.not_le.mpr hwide)
      | more _ hrest => rw [ih hrest]

theorem body_length_le (hs : Passes connective width limit next body s) :
    s.body.length ≤ limit := by
  induction hs with
  | done hnarrow => exact hnarrow
  | more _ _ ih => exact ih

theorem body_ne_nil (hs : Passes connective width limit next body s) (hbody : body ≠ []) :
    s.body ≠ [] := by
  induction hs with
  | done => exact hbody
  | more _ _ ih => exact ih (pass_body_ne_nil connective width _ hbody)

theorem factor (hs : Passes connective width limit next body s) :
    ∀ t ∈ s.factors,
      ∃ head inner, inner.length = width ∧ t = .clause connective head none inner := by
  induction hs with
  | done => exact fun t ht => absurd ht List.not_mem_nil
  | more _ _ ih =>
      rw [List.forall_mem_append]
      exact ⟨pass_factor connective width _ _, ih⟩

end Passes

end Splitting

namespace FactorGraph

namespace Lowering

variable {c : Lowering α}

/-- A factor over at most one variable more than the limit on clauses. -/
def Narrow {ν : Type} (limit : Nat) (t : Factor ν α) : Prop :=
  t.vars.length ≤ limit + 1

/-- A control takes the room of one body node, so a gated clause is no wider than another. -/
theorem emitClause_narrow (hlow : 2 ≤ c.clauseLimit) {connective : Connective}
    {e next : Emitted α} {d : Nat × List Nat} (he : ∀ t ∈ e.factors, Narrow c.clauseLimit t)
    (hnext : c.emitClause connective e d = .ok next) :
    ∀ t ∈ next.factors, Narrow c.clauseLimit t := by
  obtain ⟨control, _, hnext⟩ := bind_eq_ok_iff.mp hnext
  cases hnext
  have hpasses : Splitting.Passes connective c.clauseLimit (Splitting.bodyRoom c.clauseLimit control)
      e.next (d.2.map Slot.own) (Splitting.ofBody connective c.clauseLimit _ e.next _) :=
    Splitting.ofBody_passes (α := α) connective hlow (Splitting.le_bodyRoom_add_one _ control) _ _
  rw [List.forall_mem_append, List.forall_mem_append, List.forall_mem_singleton]
  refine ⟨⟨he, ?_⟩, ?_⟩
  · intro t ht
    obtain ⟨head, inner, hinner, rfl⟩ := hpasses.factor t ht
    simp [Narrow, Factor.clause, hinner]
  · have hbody := hpasses.body_length_le
    have hroom := Splitting.bodyRoom_add control (show 1 ≤ c.clauseLimit by omega)
    unfold Splitting.bodyRoom at hbody hroom
    unfold Narrow Factor.clause
    simp only [List.length_cons, List.length_append]
    omega

theorem emitClauses_narrow (hlow : 2 ≤ c.clauseLimit) {connective : Connective}
    {derivations : List (Nat × List Nat)} {e last : Emitted α}
    (he : ∀ t ∈ e.factors, Narrow c.clauseLimit t)
    (hlast : derivations.foldlM (c.emitClause connective) e = .ok last) :
    ∀ t ∈ last.factors, Narrow c.clauseLimit t :=
  foldlM_keeps (fun e => ∀ t ∈ e.factors, Narrow c.clauseLimit t)
    (fun _ _ _ he hnext => emitClause_narrow hlow he hnext) he hlast

theorem latentFactors_narrow (hlow : 2 ≤ c.clauseLimit) {factors : List (Factor Slot α)}
    (hfactors : c.latentFactors = .ok factors) : ∀ t ∈ factors, Narrow c.clauseLimit t := by
  unfold latentFactors at hfactors
  split at hfactors
  · refine forall_mem_of_mapM_eq_ok ?_ hfactors
    intro item t ht
    obtain ⟨prior, _, ht⟩ := bind_eq_ok_iff.mp ht
    cases ht
    simp only [Narrow, Factor.bernoulli, List.length_cons, List.length_nil]
    omega
  · cases hfactors
    exact fun t ht => absurd ht List.not_mem_nil

theorem singletonFactor_narrow (hlow : 2 ≤ c.clauseLimit) {node : Nat} {t : Factor Slot α}
    (ht : c.singletonFactor node = .ok t) : Narrow c.clauseLimit t := by
  unfold singletonFactor at ht
  split at ht
  · cases ht
    simp [Narrow, Factor.constantTrue]
  · obtain ⟨prior, _, ht⟩ := bind_eq_ok_iff.mp ht
    cases ht
    simp only [Narrow, Factor.bernoulli, List.length_cons, List.length_nil]
    omega

theorem template_narrow (hlow : 2 ≤ c.clauseLimit) {e : Emitted α} (he : c.template = .ok e) :
    ∀ t ∈ e.factors, Narrow c.clauseLimit t := by
  obtain ⟨latents, hlatents, he⟩ := bind_eq_ok_iff.mp he
  obtain ⟨sums, hsums, he⟩ := bind_eq_ok_iff.mp he
  obtain ⟨clauses, hclauses, he⟩ := bind_eq_ok_iff.mp he
  obtain ⟨singletons, hsingletons, he⟩ := bind_eq_ok_iff.mp he
  cases he
  dsimp only
  rw [List.forall_mem_append]
  constructor
  · exact emitClauses_narrow hlow
      (emitClauses_narrow hlow (latentFactors_narrow hlow hlatents) hsums) hclauses
  · exact forall_mem_of_mapM_eq_ok (fun _ _ ht => singletonFactor_narrow hlow ht) hsingletons

end Lowering

/-- No factor of a compiled graph is wider than the limit allows. -/
theorem compile_narrow {g : CausalGraph α} {repetitions : Nat} {bayesian : Bool}
    {f : FactorGraph α} (hf : compile g repetitions bayesian limit = .ok f) :
    ∀ t ∈ f.factors, Lowering.Narrow limit t := by
  unfold compile at hf
  split at hf
  · cases hf
  · rename_i hlimit
    obtain ⟨e, he, hf⟩ := bind_eq_ok_iff.mp hf
    cases hf
    have htemplate := Lowering.template_narrow (show 2 ≤ limit by omega) he
    unfold factors
    rw [List.forall_mem_append]
    constructor
    · intro t ht
      obtain ⟨entry, _, rfl⟩ := List.mem_map.mp ht
      unfold Lowering.Narrow Lowering.parameterFactor
      split <;> simp [Factor.categorical]
    · intro t ht
      obtain ⟨replica, _, ht⟩ := List.mem_flatMap.mp ht
      obtain ⟨u, hu, rfl⟩ := List.mem_map.mp ht
      unfold Lowering.Narrow Factor.mapVars
      rw [List.length_map]
      exact htemplate u hu

end FactorGraph

end DerivationBelief

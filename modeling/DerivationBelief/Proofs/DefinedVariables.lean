import DerivationBelief.Proofs.StateSums
import Mathlib.Tactic

/-!
# Variables with a definition

A defined variable has one right state, which the variables with smaller numbers determine.  There
is one way to give all defined variables their right states, and a sum over the states of defined
variables, with weight zero for the wrong ones, picks it.
-/

namespace DerivationBelief

structure DefinedVariable where
  var : Nat
  value : Assignment → Nat

namespace DefinedVariable

variable {card : Nat → Nat}

def weight (d : DefinedVariable) (a : Assignment) : ℚ :=
  if a d.var = d.value a then 1 else 0

/-- Ascending variables, defined within their cardinalities by smaller ones. -/
structure Ordered (card : Nat → Nat) (ds : List DefinedVariable) : Prop where
  ascending : ds.Pairwise (fun d e => d.var < e.var)
  below : ∀ d ∈ ds, DependsOn d.value {v | v < d.var}
  inRange : ∀ d ∈ ds, ∀ a, d.value a < card d.var

def complete : List DefinedVariable → Assignment → Assignment
  | [], a => a
  | d :: ds, a => complete ds (Function.update a d.var (d.value a))

theorem Ordered.tail {d : DefinedVariable} {ds : List DefinedVariable}
    (hds : Ordered card (d :: ds)) : Ordered card ds where
  ascending := (List.pairwise_cons.mp hds.ascending).2
  below := fun e he => hds.below e (List.mem_cons_of_mem _ he)
  inRange := fun e he => hds.inRange e (List.mem_cons_of_mem _ he)

theorem Ordered.head_lt {d : DefinedVariable} {ds : List DefinedVariable}
    (hds : Ordered card (d :: ds)) : ∀ v ∈ ds.map DefinedVariable.var, d.var < v := by
  intro v hv
  obtain ⟨e, he, rfl⟩ := List.mem_map.mp hv
  exact (List.pairwise_cons.mp hds.ascending).1 e he

theorem complete_of_not_mem {ds : List DefinedVariable} {v : Nat}
    (hv : v ∉ ds.map DefinedVariable.var) (a : Assignment) : complete ds a v = a v := by
  induction ds generalizing a with
  | nil => rfl
  | cons d ds ih =>
      rw [List.map_cons, List.mem_cons, not_or] at hv
      rw [complete, ih hv.2, Function.update_of_ne hv.1]

theorem Ordered.complete_inRange {ds : List DefinedVariable} (hds : Ordered card ds)
    {a : Assignment} (ha : InRange card a) : InRange card (complete ds a) := by
  induction ds generalizing a with
  | nil => exact ha
  | cons d ds ih => exact ih hds.tail (ha.update (hds.inRange d List.mem_cons_self a))

/-- All defined variables of a completed assignment have their right states. -/
theorem Ordered.complete_right {ds : List DefinedVariable} (hds : Ordered card ds)
    (a : Assignment) : ∀ d ∈ ds, complete ds a d.var = d.value (complete ds a) := by
  induction ds generalizing a with
  | nil => simp
  | cons d ds ih =>
      rw [List.forall_mem_cons]
      refine ⟨?_, ih hds.tail _⟩
      have hself : d.var ∉ ds.map DefinedVariable.var :=
        fun hmem => lt_irrefl _ (hds.head_lt _ hmem)
      have hsame : d.value (complete (d :: ds) a) = d.value a := by
        apply hds.below d List.mem_cons_self
        intro v hv
        have hother : v ∉ (d :: ds).map DefinedVariable.var := by
          rw [List.map_cons, List.mem_cons, not_or]
          refine ⟨ne_of_lt hv, ?_⟩
          intro hmem
          exact lt_asymm hv (hds.head_lt v hmem)
        exact complete_of_not_mem hother a
      rw [hsame, complete, complete_of_not_mem hself, Function.update_self]

theorem sumState_weight {d : DefinedVariable} (hbelow : DependsOn d.value {v | v < d.var})
    {a : Assignment} (hrange : d.value a < card d.var) (rest : Assignment → ℚ) :
    sumState card d.var (fun b => d.weight b * rest b) a =
      rest (Function.update a d.var (d.value a)) := by
  have hself : d.var ∉ {v | v < d.var} := lt_irrefl d.var
  unfold sumState weight
  simp only [Function.update_self, update_of_dependsOn hbelow hself, ite_mul, one_mul, zero_mul]
  rw [Finset.sum_ite_eq' (Finset.range (card d.var)) (d.value a)
    (fun s => rest (Function.update a d.var s)), if_pos (Finset.mem_range.mpr hrange)]

/-- Summing over the defined variables gives them their right states. -/
theorem sumStates_defined {ds : List DefinedVariable} (hds : Ordered card ds)
    (rest : Assignment → ℚ) (a : Assignment) :
    sumStates card (ds.map DefinedVariable.var)
        (fun b => (ds.map (fun d => d.weight b)).prod * rest b) a =
      rest (complete ds a) := by
  induction ds generalizing rest a with
  | nil => simp [sumStates, complete]
  | cons d ds ih =>
      have hself : d.var ∉ ds.map DefinedVariable.var :=
        fun hmem => lt_irrefl _ (hds.head_lt _ hmem)
      have hbelow := hds.below d List.mem_cons_self
      set others : Assignment → ℚ := fun b => (ds.map (fun e => e.weight b)).prod * rest b
        with hothers
      have hstep : sumState card d.var
          (fun b => ((d :: ds).map (fun e => e.weight b)).prod * rest b) =
          fun b => others (Function.update b d.var (d.value b)) := by
        funext b
        simp only [List.map_cons, List.prod_cons, mul_assoc]
        exact sumState_weight hbelow (hds.inRange d List.mem_cons_self b) others
      have hlater : ∀ v ∈ ds.map DefinedVariable.var, v ∉ {v | v < d.var} :=
        fun v hmem hlt => lt_asymm (hds.head_lt v hmem) hlt
      rw [List.map_cons, sumStates, hstep, sumStates_substitute hself hbelow hlater,
        ih hds.tail, complete]

end DefinedVariable

end DerivationBelief

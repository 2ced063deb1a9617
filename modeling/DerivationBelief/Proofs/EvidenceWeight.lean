import DerivationBelief.Proofs.Elimination
import Mathlib.Tactic

/-!
# The weight of the evidence

The weight of an assignment is the product of the weights of all factors.  The evidence weighs as
much as all assignments that agree with it, which is the sum over the unobserved variables of the
weight with the observed states put in.
-/

namespace DerivationBelief

/-! ## Weights of assignments -/

def variablesOf (factors : List (Factor Nat ℚ)) : List Nat :=
  Arrival.distinct (factors.flatMap Factor.vars)

def jointWeight (factors : List (Factor Nat ℚ)) (a : Assignment) : ℚ :=
  (factors.map (fun f => f.weightAt a)).prod

/-- The observed variables among some variables have their observed states. -/
def Agrees (evidence : Evidence) (vars : List Nat) (a : Assignment) : Prop :=
  ∀ v ∈ vars, ∀ s ∈ Arrival.get? evidence v, a v = s

instance (evidence : Evidence) (vars : List Nat) : DecidablePred (Agrees evidence vars) :=
  fun a => inferInstanceAs (Decidable (∀ v ∈ vars, ∀ s ∈ Arrival.get? evidence v, a v = s))

def totalWeight (card : Nat → Nat) (factors : List (Factor Nat ℚ)) (property : Assignment → Prop)
    [DecidablePred property] : ℚ :=
  sumStates card (variablesOf factors)
    (fun a => if property a then jointWeight factors a else 0) (fun _ => 0)

/-- The total weight of the assignments that agree with the evidence. -/
def evidenceWeight (card : Nat → Nat) (factors : List (Factor Nat ℚ)) (evidence : Evidence) : ℚ :=
  totalWeight card factors (Agrees evidence (variablesOf factors))

/-- The total weight of those that also give a state to a variable. -/
def stateWeight (card : Nat → Nat) (factors : List (Factor Nat ℚ)) (evidence : Evidence)
    (v s : Nat) : ℚ :=
  totalWeight card factors (fun a => Agrees evidence (variablesOf factors) a ∧ a v = s)

variable {card : Nat → Nat} {factors : List (Factor Nat ℚ)} {evidence : Evidence}

theorem mem_variablesOf {v : Nat} : v ∈ variablesOf factors ↔ ∃ f ∈ factors, v ∈ f.vars := by
  simp [variablesOf]

theorem variablesOf_nodup (factors : List (Factor Nat ℚ)) : (variablesOf factors).Nodup :=
  Arrival.distinct_nodup _

theorem jointWeight_append (factors others : List (Factor Nat ℚ)) (a : Assignment) :
    jointWeight (factors ++ others) a = jointWeight factors a * jointWeight others a := by
  unfold jointWeight
  rw [List.map_append, List.prod_append]

theorem jointWeight_dependsOn (factors : List (Factor Nat ℚ)) :
    DependsOn (jointWeight factors) {v | v ∈ variablesOf factors} := by
  intro a b hab
  unfold jointWeight
  congr 1
  apply List.map_congr_left
  intro f hf
  exact Factor.weightAt_congr (fun v hv => hab v (mem_variablesOf.mpr ⟨f, hf, hv⟩))

/-! ## Sums over the assignments that agree with the evidence -/

theorem agrees_nil (a : Assignment) : Agrees evidence [] a := by
  intro v hv
  cases hv

theorem agrees_cons {v : Nat} {vars : List Nat} {a : Assignment} :
    Agrees evidence (v :: vars) a ↔
      (∀ s ∈ Arrival.get? evidence v, a v = s) ∧ Agrees evidence vars a :=
  List.forall_mem_cons

theorem agrees_update {v s : Nat} {vars : List Nat} (hv : v ∉ vars) (a : Assignment) :
    Agrees evidence vars (Function.update a v s) ↔ Agrees evidence vars a := by
  apply forall₂_congr
  intro u hu
  rw [Function.update_of_ne]
  rintro rfl
  exact hv hu

theorem sumState_observed {v s : Nat} (hs : s < card v) (weight : Assignment → ℚ)
    (a : Assignment) :
    sumState card v (fun b => if b v = s then weight b else 0) a =
      weight (Function.update a v s) := by
  unfold sumState
  simp only [Function.update_self]
  rw [Finset.sum_ite_eq' (Finset.range (card v)) s (fun r => weight (Function.update a v r)),
    if_pos (Finset.mem_range.mpr hs)]

theorem sumStates_agreeing (hevidence : evidence.Below card) {vars : List Nat}
    (hnodup : vars.Nodup) {weight : Assignment → ℚ} (hweight : DependsOn weight {v | v ∈ vars}) :
    sumStates card vars (fun a => if Agrees evidence vars a then weight a else 0) =
      sumStates card (vars.filter (fun v => Arrival.get? evidence v = none))
        (fun a => weight (override evidence a)) := by
  induction vars generalizing weight with
  | nil =>
      funext a
      simp only [sumStates, List.filter_nil, agrees_nil, if_true]
      exact hweight (by simp)
  | cons v vars ih =>
      rw [List.nodup_cons] at hnodup
      have hscope : ({u | u ∈ v :: vars} : Set Nat) \ {v} = {u | u ∈ vars} := by
        ext u
        simp only [List.mem_cons, Set.mem_sdiff, Set.mem_ofPred_eq, Set.mem_singleton_iff]
        constructor
        · rintro ⟨heq | hu, hne⟩
          · exact absurd heq hne
          · exact hu
        · intro hu
          refine ⟨Or.inr hu, ?_⟩
          rintro rfl
          exact hnodup.1 hu
      simp only [sumStates]
      cases hget : Arrival.get? evidence v with
      | none =>
          have hstep : sumState card v
              (fun a => if Agrees evidence (v :: vars) a then weight a else 0) =
              fun a => if Agrees evidence vars a then sumState card v weight a else 0 := by
            funext a
            unfold sumState
            simp only [agrees_cons, hget, agrees_update hnodup.1]
            by_cases hagrees : Agrees evidence vars a <;> simp [hagrees]
          have hfree : sumState card v (fun a => weight (override evidence a)) =
              fun a => sumState card v weight (override evidence a) := by
            funext a
            unfold sumState
            simp only [override_update hget]
          rw [hstep, ih hnodup.2 (hscope ▸ sumState_dependsOn hweight),
            List.filter_cons_of_pos (by simpa using hget), sumStates, hfree]
      | some s =>
          have hs : s < card v := hevidence (v, s) (Arrival.mem_of_get? hget)
          have hstep : sumState card v
              (fun a => if Agrees evidence (v :: vars) a then weight a else 0) =
              fun a => if Agrees evidence vars a then weight (Function.update a v s) else 0 := by
            funext a
            have hpick := sumState_observed hs
              (fun b => if Agrees evidence vars b then weight b else 0) a
            simp only [agrees_update hnodup.1] at hpick
            simp only [agrees_cons, hget, Option.mem_def, Option.some.injEq, forall_eq', ite_and]
            exact hpick
          have hfixed : DependsOn (fun a => weight (Function.update a v s)) {u | u ∈ vars} := by
            intro a b hab
            apply hweight
            intro u hu
            rcases List.mem_cons.mp hu with rfl | htail
            · simp
            · by_cases huv : u = v
              · subst u
                simp
              · simp [huv, hab u htail]
          rw [hstep, ih hnodup.2 hfixed, List.filter_cons_of_neg (by simp [hget])]
          congr 1
          funext a
          congr 1
          exact Function.update_eq_self_iff.mpr (override_of_get? hget a).symm

end DerivationBelief

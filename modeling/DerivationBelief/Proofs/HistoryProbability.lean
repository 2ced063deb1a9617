import DerivationBelief.Proofs.IndependentReplicas
import Mathlib.Data.List.GetD
import Mathlib.Tactic

/-!
# The probability of a history

A history puts one condition on each replica behind the first one.  Once the draws are known, every
batch therefore has a factor of its own, and the order of the batches plays no part.
-/

namespace DerivationBelief

/-- The nodes have the values of a batch. -/
def BatchHolds (batch : Batch) (holds : Nat → Bool) : Prop :=
  ∀ observed ∈ batch, holds observed.1 = observed.2

instance (batch : Batch) : DecidablePred (BatchHolds batch) :=
  fun holds => inferInstanceAs (Decidable (∀ observed ∈ batch, holds observed.1 = observed.2))

/-- The condition on each replica: an event in the first one, and a batch in each of the others. -/
def ConditionAt (event : (Nat → Bool) → Prop) (history : List Batch) :
    Nat → (Nat → Bool) → Prop
  | 0, holds => event holds
  | batch + 1, holds => BatchHolds (history.getD batch []) holds

instance (event : (Nat → Bool) → Prop) [DecidablePred event] (history : List Batch) :
    ∀ replica, DecidablePred (ConditionAt event history replica)
  | 0 => inferInstanceAs (DecidablePred event)
  | batch + 1 => inferInstanceAs (DecidablePred (BatchHolds (history.getD batch [])))

theorem World.holds_iff (w : World) (history : List Batch) :
    w.Holds history ↔
      ∀ batch < history.length, BatchHolds (history.getD batch []) (w.node (batch + 1)) := by
  constructor
  · intro hholds batch hbatch
    rw [List.getD_eq_getElem _ _ hbatch]
    exact hholds (history[batch], batch)
      (List.mem_zipIdx_iff_getElem?.mpr (List.getElem?_eq_getElem hbatch))
  · rintro hall ⟨batch, replica⟩ hentry
    have hbatch := List.mem_zipIdx_iff_getElem?.mp hentry
    obtain ⟨hlt, hvalue⟩ := List.getElem?_eq_some_iff.mp hbatch
    have hholds := hall replica hlt
    rw [List.getD_eq_getElem _ _ hlt, hvalue] at hholds
    exact hholds

namespace CausalGraph

variable {g : CausalGraph ℚ} {bayesian : Bool} {history others : List Batch}

/-- The probability that a batch holds in a replica, given the chance of each node. -/
def batchMass (g : CausalGraph ℚ) (chances : Nat → ℚ) (batch : Batch) : ℚ :=
  g.replicaMass chances (BatchHolds batch)

theorem Observes.within {batch : Batch} (hbatch : g.Observes batch) :
    g.Within (BatchHolds batch) := by
  intro holds other hsame
  apply forall₂_congr
  intro observed hobserved
  rw [hsame _ (hbatch.node_lt observed hobserved)]

theorem conditionAt_within (hhistory : ∀ batch ∈ history, g.Observes batch)
    {event : (Nat → Bool) → Prop} (hevent : g.Within event) (replica : Nat) :
    g.Within (ConditionAt event history replica) := by
  cases replica with
  | zero => exact hevent
  | succ batch =>
      have hobserves : g.Observes (history.getD batch []) := by
        rcases Nat.lt_or_ge batch history.length with hlt | hge
        · rw [List.getD_eq_getElem _ _ hlt]
          exact hhistory _ (List.getElem_mem hlt)
        · rw [List.getD_eq_default _ _ hge]
          exact ⟨List.nodup_nil, nofun⟩
      exact hobserves.within

section Event

variable {draws : Assignment → Prop} [DecidablePred draws] {event : (Nat → Bool) → Prop}
  [DecidablePred event]

omit [DecidablePred draws] [DecidablePred event] in
theorem conditions_iff (w : World) (history : List Batch) :
    (draws w.draw ∧ event (w.node 0)) ∧ w.Holds history ↔
      draws w.draw ∧ ∀ r ≤ history.length, ConditionAt event history r (w.node r) := by
  rw [and_assoc, World.holds_iff]
  apply and_congr_right
  intro _
  constructor
  · rintro ⟨hevent, hholds⟩ r hr
    cases r with
    | zero => exact hevent
    | succ batch => exact hholds batch hr
  · intro hall
    exact ⟨hall 0 (Nat.zero_le _), fun batch hlt => hall (batch + 1) hlt⟩

theorem conditionMasses (g : CausalGraph ℚ) (chances : Nat → ℚ) (history : List Batch) :
    ((List.range (history.length + 1)).map (fun r =>
        g.replicaMass chances (ConditionAt event history r))).prod =
      g.replicaMass chances event * (history.map (g.batchMass chances)).prod := by
  have hbatches : (List.range history.length).map (fun batch =>
      g.batchMass chances (history.getD batch [])) = history.map (g.batchMass chances) := by
    apply List.ext_getElem
    · simp
    · intro batch hrange hlt
      rw [List.length_map] at hlt
      rw [List.getElem_map, List.getElem_map, List.getElem_range, List.getD_eq_getElem _ _ hlt]
  rw [List.range_succ_eq_map, List.map_cons, List.prod_cons, List.map_map, ← hbatches]
  rfl

/-- The probability of a history, together with a condition on the draws and one on the first
replica, is a sum over the draws in which every batch has a factor of its own. -/
theorem probability_history (hg : g.Proper) (hhistory : ∀ batch ∈ history, g.Observes batch)
    (hdraws : DependsOn draws {dist | dist < g.distCount}) (hevent : g.Within event) :
    g.probability bayesian history.length
        (fun w => (draws w.draw ∧ event (w.node 0)) ∧ w.Holds history) =
      sumStates (g.stateCount bayesian) (List.range g.distCount)
        (fun a =>
          (if draws a then g.drawsProbability bayesian (drawn a) else 0) *
            (g.replicaMass (g.chanceOf bayesian (drawn a)) event *
              (history.map (g.batchMass (g.chanceOf bayesian (drawn a)))).prod))
        (fun _ => 0) := by
  rw [probability_factors hg (fun w => conditions_iff w history) hdraws
    (conditionAt_within hhistory hevent)]
  simp only [conditionMasses]

end Event

theorem certain_within : g.Within (fun _ => True) :=
  fun _ _ _ => Iff.rfl

end CausalGraph

end DerivationBelief

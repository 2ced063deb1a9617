import Mathlib.Tactic

/-!
# Searches that expand every found element once

A search keeps the elements it has found and, among them, those it has not expanded.  While it runs,
everything found is reached from the start, and a found element that is not pending has all of its
successors found.  When nothing is pending, the found elements are exactly the reached ones.

Only finitely many elements can be found, and every expansion takes one element off the pending
ones, so the elements that are still to be found and those that are pending bound the steps.
-/

namespace DerivationBelief

open Relation

/-- The elements of a list that have not been found, each once. -/
def fresh (found : List Nat) : List Nat → List Nat
  | [] => []
  | t :: ts => if t ∈ found then fresh found ts else t :: fresh (found ++ [t]) ts

theorem fresh_cons (found : List Nat) (t : Nat) (ts : List Nat) :
    fresh found (t :: ts) = fresh found [t] ++ fresh (found ++ fresh found [t]) ts := by
  by_cases hfound : t ∈ found <;> simp [fresh, hfound]

theorem fresh_nodup {found : List Nat} (hnodup : found.Nodup) (ts : List Nat) :
    (found ++ fresh found ts).Nodup := by
  induction ts generalizing found with
  | nil => simpa [fresh] using hnodup
  | cons t ts ih =>
      unfold fresh
      split
      next hfound => exact ih hnodup
      next hnew =>
        have hmore : (found ++ [t]).Nodup := by
          rw [List.nodup_append]
          refine ⟨hnodup, List.nodup_singleton t, ?_⟩
          rintro u hu v hv rfl
          exact hnew (List.mem_singleton.mp hv ▸ hu)
        simpa using ih hmore

theorem mem_of_mem_fresh {found ts : List Nat} {t : Nat} (ht : t ∈ fresh found ts) : t ∈ ts := by
  induction ts generalizing found with
  | nil => simp [fresh] at ht
  | cons u ts ih =>
      unfold fresh at ht
      split at ht
      next hfound => exact List.mem_cons_of_mem _ (ih ht)
      next hnew =>
        rcases List.mem_cons.mp ht with rfl | htail
        · exact List.mem_cons_self
        · exact List.mem_cons_of_mem _ (ih htail)

theorem mem_append_fresh {found ts : List Nat} {t : Nat} (ht : t ∈ ts) :
    t ∈ found ++ fresh found ts := by
  induction ts generalizing found with
  | nil => simp at ht
  | cons u ts ih =>
      unfold fresh
      split
      next hfound =>
        rcases List.mem_cons.mp ht with rfl | htail
        · exact List.mem_append_left _ hfound
        · exact ih htail
      next hnew =>
        rcases List.mem_cons.mp ht with rfl | htail
        · simp
        · simpa [List.append_assoc] using @ih (found ++ [u]) htail

/-- What a search for the elements reached from a start knows. -/
structure Exploration (step : Nat → Nat → Prop) (start : Nat → Prop) (bound : Nat)
    (found pending : List Nat) : Prop where
  nodup : found.Nodup
  bounded : ∀ t ∈ found, t < bound
  reached : ∀ t ∈ found, ∃ s, start s ∧ ReflTransGen step s t
  started : ∀ s, start s → s ∈ found
  pending_found : ∀ t ∈ pending, t ∈ found
  expanded : ∀ t ∈ found, t ∈ pending ∨ ∀ u, step t u → u ∈ found

namespace Exploration

variable {step : Nat → Nat → Prop} {start : Nat → Prop} {bound : Nat} {found pending : List Nat}

theorem length_le (hsearch : Exploration step start bound found pending) :
    found.length ≤ bound := by
  have hsub : found ⊆ List.range bound := by
    intro t ht
    exact List.mem_range.mpr (hsearch.bounded t ht)
  simpa using (hsearch.nodup.subperm hsub).length_le

theorem closed (hsearch : Exploration step start bound found []) {s t : Nat}
    (hs : s ∈ found) (hchain : ReflTransGen step s t) : t ∈ found := by
  induction hchain with
  | refl => exact hs
  | tail _ hstep ih =>
      rcases hsearch.expanded _ ih with hpending | hall
      · simp at hpending
      · exact hall _ hstep

/-- A finished search has found exactly what is reached from the start. -/
theorem mem_iff (hsearch : Exploration step start bound found []) {t : Nat} :
    t ∈ found ↔ ∃ s, start s ∧ ReflTransGen step s t := by
  constructor
  · exact hsearch.reached t
  · rintro ⟨s, hs, hchain⟩
    exact hsearch.closed (hsearch.started s hs) hchain

theorem initial {first : List Nat} (hnodup : first.Nodup) (hbounded : ∀ t ∈ first, t < bound) :
    Exploration step (· ∈ first) bound first first where
  nodup := hnodup
  bounded := hbounded
  reached := fun t ht => ⟨t, ht, ReflTransGen.refl⟩
  started := fun _ hs => hs
  pending_found := fun _ ht => ht
  expanded := fun _ ht => Or.inl ht

theorem expand {t : Nat} {rest ts : List Nat}
    (hsearch : Exploration step start bound found (t :: rest))
    (hts : ∀ u, u ∈ ts ↔ step t u) (hbounded : ∀ u ∈ ts, u < bound) :
    Exploration step start bound (found ++ fresh found ts) (rest ++ fresh found ts) where
  nodup := fresh_nodup hsearch.nodup ts
  bounded := by
    intro u hu
    rcases List.mem_append.mp hu with hold | hnew
    · exact hsearch.bounded u hold
    · exact hbounded u (mem_of_mem_fresh hnew)
  reached := by
    intro u hu
    rcases List.mem_append.mp hu with hold | hnew
    · exact hsearch.reached u hold
    · obtain ⟨s, hs, hchain⟩ :=
        hsearch.reached t (hsearch.pending_found t List.mem_cons_self)
      exact ⟨s, hs, hchain.tail ((hts u).mp (mem_of_mem_fresh hnew))⟩
  started := fun s hs => List.mem_append_left _ (hsearch.started s hs)
  pending_found := by
    intro u hu
    rcases List.mem_append.mp hu with hold | hnew
    · exact List.mem_append_left _ (hsearch.pending_found u (List.mem_cons_of_mem _ hold))
    · exact List.mem_append_right _ hnew
  expanded := by
    intro u hu
    rcases List.mem_append.mp hu with hold | hnew
    · rcases hsearch.expanded u hold with hpending | hclosed
      · rcases List.mem_cons.mp hpending with rfl | hrest
        · exact Or.inr (fun v hv => mem_append_fresh ((hts v).mpr hv))
        · exact Or.inl (List.mem_append_left _ hrest)
      · exact Or.inr (fun v hv => List.mem_append_left _ (hclosed v hv))
    · exact Or.inl (List.mem_append_right _ hnew)

def work (bound : Nat) (found pending : List Nat) : Nat :=
  (bound - found.length) + pending.length

theorem work_expand {t : Nat} {rest ts : List Nat}
    (hsearch : Exploration step start bound (found ++ fresh found ts)
      (rest ++ fresh found ts)) :
    work bound (found ++ fresh found ts) (rest ++ fresh found ts) + 1 =
      work bound found (t :: rest) := by
  have hlength := hsearch.length_le
  simp only [List.length_append] at hlength
  simp only [work, List.length_append, List.length_cons]
  omega

end Exploration

end DerivationBelief

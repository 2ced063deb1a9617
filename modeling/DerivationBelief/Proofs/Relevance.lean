import DerivationBelief.Relevance
import DerivationBelief.Proofs.ClauseIndex
import DerivationBelief.Proofs.Exploration
import Mathlib.Tactic

/-!
# The walk back from observed tuples

Walking back explores the chosen rules from heads to bodies, so it marks exactly the tuples from
which an observed tuple is reached.  A chosen rule is active when its head is marked, and then all
of its body is marked.
-/

namespace DerivationBelief

open Relation

theorem foldl_markNew (ts found pending : List Nat) :
    ts.foldl markNew (found, pending) =
      (found ++ fresh found ts, pending ++ fresh found ts) := by
  induction ts generalizing found pending with
  | nil => simp [fresh]
  | cons t ts ih =>
      by_cases hfound : t ∈ found <;> simp [markNew, fresh, hfound, ih]

namespace ClauseIndex

variable {index : ClauseIndex} {chosen : List Nat}

theorem mem_behind {t u : Nat} :
    u ∈ index.behind chosen t ↔ index.Feeds chosen u t :=
  index.mem_bodies_iff_feeds

theorem walkBack_exploration (hindex : index.WellFormed) {start : Nat → Prop} {fuel : Nat}
    {marked queue : List Nat}
    (hwalk : Exploration (fun t u => index.Feeds chosen u t) start index.size marked queue)
    (hfuel : Exploration.work index.size marked queue ≤ fuel) :
    Exploration (fun t u => index.Feeds chosen u t) start index.size
      (index.walkBack chosen fuel (marked, queue)) [] := by
  induction fuel generalizing marked queue with
  | zero =>
      have hempty : queue.length = 0 := by
        unfold Exploration.work at hfuel
        omega
      rw [List.length_eq_zero_iff] at hempty
      subst queue
      exact hwalk
  | succ fuel ih =>
      cases queue with
      | nil => exact hwalk
      | cons t rest =>
          have hnext := hwalk.expand (fun _ => mem_behind) (by
            intro u hu
            obtain ⟨c, _, _, hbody, _⟩ := mem_behind.mp hu
            exact hindex.body_lt c u hbody)
          have hwork := hnext.work_expand (t := t)
          change Exploration _ _ _
            (index.walkBack chosen fuel ((index.behind chosen t).foldl markNew (marked, rest))) []
          rw [foldl_markNew]
          exact ih hnext (by omega)

theorem coreachable_exploration (hindex : index.WellFormed) (observed : List GroundTuple) :
    Exploration (fun t u => index.Feeds chosen u t)
      (· ∈ fresh [] (observed.filterMap index.number?)) index.size
      (index.coreachable chosen observed) [] := by
  unfold coreachable
  rw [foldl_markNew]
  simp only [List.nil_append]
  have hstart : Exploration (fun t u => index.Feeds chosen u t)
      (· ∈ fresh [] (observed.filterMap index.number?)) index.size
      (fresh [] (observed.filterMap index.number?))
      (fresh [] (observed.filterMap index.number?)) := by
    apply Exploration.initial
    · simpa using fresh_nodup List.nodup_nil (observed.filterMap index.number?)
    · intro i hi
      obtain ⟨t, _, ht⟩ := List.mem_filterMap.mp (mem_of_mem_fresh hi)
      obtain ⟨hmem, rfl⟩ := Arrival.position?_eq_some_iff.mp ht
      exact List.idxOf_lt_length_of_mem hmem
  apply walkBack_exploration hindex hstart
  have hlength := hstart.length_le
  unfold Exploration.work
  omega

theorem coreachable_closed (hindex : index.WellFormed) {observed : List GroundTuple} {s t : Nat}
    (ht : t ∈ index.coreachable chosen observed) (hfeeds : index.Feeds chosen s t) :
    s ∈ index.coreachable chosen observed :=
  (coreachable_exploration hindex observed).closed ht (ReflTransGen.single hfeeds)

theorem mem_activeRules {observed : List GroundTuple} {c : Nat} :
    c ∈ index.activeRules chosen observed ↔ c < index.rules.length ∧ c ∈ chosen ∧
      index.head c ∈ index.coreachable chosen observed := by
  unfold activeRules
  simp [mem_ruleNumbers_iff]

end ClauseIndex

end DerivationBelief

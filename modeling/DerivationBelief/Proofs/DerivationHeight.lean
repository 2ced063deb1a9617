import DerivationBelief.Proofs.ClauseIndex
import Mathlib.Tactic

/-!
# Derivations and their heights

A tuple is derivable when it is an input or the head of a clause whose body is derivable.  Signs
play no part.  A derivation of an input has height zero, and a clause is one higher than the highest
derivation of its body.  Every height up to the least one of a tuple is the least height of some
tuple, so no least height exceeds the number of tuples.
-/

namespace DerivationBelief

/-- Derivable from the inputs by the clauses of a list. -/
inductive Derivable (clauses : List GroundClause) (inputs : List GroundTuple) :
    GroundTuple → Prop
  | input {t : GroundTuple} : t ∈ inputs → Derivable clauses inputs t
  | clause {clause : GroundClause} : clause ∈ clauses →
      (∀ s ∈ clause.bodyTuples, Derivable clauses inputs s) →
      Derivable clauses inputs clause.head

namespace ClauseIndex

section Heights

variable (index : ClauseIndex) (given : Nat → Prop)

/-- Derivable from the given numbers with a derivation of at most some height. -/
def Within : Nat → Nat → Prop
  | 0, t => given t
  | height + 1, t => Within height t ∨
      ∃ c < index.rules.length, index.head c = t ∧ ∀ b ∈ index.body c, Within height b

variable {index given}

theorem Within.mono {low high t : Nat} (hle : low ≤ high) (hlow : index.Within given low t) :
    index.Within given high t := by
  induction hle with
  | refl => exact hlow
  | step _ ih => exact Or.inl ih

/-- Finitely many derivations have a common bound on their heights. -/
theorem exists_within_all {body : List Nat}
    (hbody : ∀ b ∈ body, ∃ height, index.Within given height b) :
    ∃ height, ∀ b ∈ body, index.Within given height b := by
  induction body with
  | nil => exact ⟨0, by simp⟩
  | cons b body ih =>
      rw [List.forall_mem_cons] at hbody
      obtain ⟨first, hfirst⟩ := hbody.1
      obtain ⟨rest, hrest⟩ := ih hbody.2
      refine ⟨max first rest, ?_⟩
      intro d hd
      rcases List.mem_cons.mp hd with rfl | htail
      · exact hfirst.mono (le_max_left _ _)
      · exact (hrest d htail).mono (le_max_right _ _)

/-- Once a height adds nothing, no greater height does. -/
theorem within_of_stable (hindex : index.WellFormed) {height : Nat}
    (hstable : ∀ t < index.size, index.Within given (height + 1) t → index.Within given height t)
    {high t : Nat} (ht : t < index.size) (hhigh : index.Within given high t) :
    index.Within given height t := by
  induction high generalizing t with
  | zero => exact hhigh.mono (Nat.zero_le height)
  | succ high ih =>
      rcases hhigh with hlow | ⟨c, hc, hhead, hbody⟩
      · exact ih ht hlow
      · apply hstable t ht
        refine Or.inr ⟨c, hc, hhead, ?_⟩
        intro b hb
        exact ih (hindex.body_lt c b hb) (hbody b hb)

open Classical in
noncomputable def withinSet (index : ClauseIndex) (given : Nat → Prop) (height : Nat) :
    Finset Nat :=
  (Finset.range index.size).filter (index.Within given height)

theorem card_withinSet_le (index : ClauseIndex) (given : Nat → Prop) (height : Nat) :
    (index.withinSet given height).card ≤ index.size := by
  classical
  have hsub : index.withinSet given height ⊆ Finset.range index.size := by
    intro t ht
    exact (Finset.mem_filter.mp ht).1
  simpa using Finset.card_le_card hsub

theorem le_card_withinSet {height : Nat}
    (hgrows : ∀ low < height, ∃ t < index.size,
      index.Within given (low + 1) t ∧ ¬ index.Within given low t) :
    height ≤ (index.withinSet given height).card := by
  induction height with
  | zero => exact Nat.zero_le _
  | succ height ih =>
      have hless := ih (fun low hlow => hgrows low (by omega))
      obtain ⟨t, ht, hnew, hold⟩ := hgrows height (Nat.lt_succ_self height)
      have hstrict : (index.withinSet given height).card <
          (index.withinSet given (height + 1)).card := by
        apply Finset.card_lt_card
        rw [Finset.ssubset_iff_of_subset]
        · exact ⟨t, by simp [withinSet, ht, hnew], by simp [withinSet, hold]⟩
        · intro u hu
          simp only [withinSet, Finset.mem_filter] at hu ⊢
          exact ⟨hu.1, hu.2.mono (Nat.le_succ height)⟩
      omega

/-- A derivable number has a derivation no higher than the number of tuples. -/
theorem within_size (hindex : index.WellFormed) {height t : Nat} (ht : t < index.size)
    (hheight : index.Within given height t) : index.Within given index.size t := by
  by_cases hstable : ∃ low ≤ index.size, ∀ u < index.size,
      index.Within given (low + 1) u → index.Within given low u
  · obtain ⟨low, hlow, hlast⟩ := hstable
    exact (within_of_stable hindex hlast ht hheight).mono hlow
  · push Not at hstable
    have hcard : index.size + 1 ≤ (index.withinSet given (index.size + 1)).card :=
      le_card_withinSet (fun low hlow => hstable low (Nat.lt_succ_iff.mp hlow))
    have hbound := card_withinSet_le index given (index.size + 1)
    omega

end Heights

/-! ## Heights of tuples -/

section OfClauses

variable {clauses : List GroundClause} {inputs : List GroundTuple}

def Given (index : ClauseIndex) (inputs : List GroundTuple) (i : Nat) : Prop :=
  ∃ t ∈ inputs, index.tuples[i]? = some t

theorem given_idxOf {t : GroundTuple} (ht : t ∈ mentioned clauses) :
    (ofClauses clauses).Given inputs ((mentioned clauses).idxOf t) ↔ t ∈ inputs := by
  have htuple : (ofClauses clauses).tuples[(mentioned clauses).idxOf t]? = some t :=
    List.getElem?_idxOf ht
  constructor
  · rintro ⟨s, hs, hsame⟩
    rw [htuple, Option.some.injEq] at hsame
    rwa [hsame]
  · intro hinput
    exact ⟨t, hinput, htuple⟩

theorem exists_within_of_derivable {t : GroundTuple} (hderivable : Derivable clauses inputs t)
    (ht : t ∈ mentioned clauses) :
    ∃ height, (ofClauses clauses).Within ((ofClauses clauses).Given inputs) height
      ((mentioned clauses).idxOf t) := by
  induction hderivable with
  | input hinput => exact ⟨0, (given_idxOf ht).mpr hinput⟩
  | @clause clause hclause _ ih =>
      obtain ⟨c, hc⟩ := List.mem_iff_getElem?.mp hclause
      obtain ⟨height, hall⟩ : ∃ height, ∀ b ∈ (ofClauses clauses).body c,
          (ofClauses clauses).Within ((ofClauses clauses).Given inputs) height b := by
        apply exists_within_all
        intro b hb
        obtain ⟨s, hs, rfl⟩ := (mem_body_ofClauses hc).mp hb
        exact ih s hs (body_subset_mentioned hc hs)
      exact ⟨height + 1, Or.inr ⟨c, lt_rules_length hc, head_ofClauses hc, hall⟩⟩

theorem derivable_of_within {height : Nat} {t : GroundTuple} (ht : t ∈ mentioned clauses)
    (hheight : (ofClauses clauses).Within ((ofClauses clauses).Given inputs) height
      ((mentioned clauses).idxOf t)) :
    Derivable clauses inputs t := by
  induction height generalizing t with
  | zero => exact Derivable.input ((given_idxOf ht).mp hheight)
  | succ height ih =>
      rcases hheight with hlow | ⟨c, hc, hhead, hbody⟩
      · exact ih ht hlow
      · rw [rules_length_ofClauses] at hc
        have hclause : clauses[c]? = some clauses[c] := List.getElem?_eq_getElem hc
        rw [head_ofClauses hclause] at hhead
        have hsame : clauses[c].head = t := (List.idxOf_inj (head_mem_mentioned hclause)).mp hhead
        rw [← hsame]
        apply Derivable.clause (List.getElem_mem hc)
        intro s hs
        apply ih (body_subset_mentioned hclause hs)
        exact hbody _ ((mem_body_ofClauses hclause).mpr ⟨s, hs, rfl⟩)

end OfClauses

end ClauseIndex

end DerivationBelief

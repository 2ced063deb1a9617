import DerivationBelief.ExactNetwork
import DerivationBelief.Proofs.EvidenceWeight
import Mathlib.Tactic

/-!
# Networks loaded from factors

The tables of a loaded network have the weight of the factors, over the same variables, and the
network knows the cardinality of each of them.
-/

namespace DerivationBelief

/-- No factor lists a variable twice, and the factors agree on the cardinalities. -/
def Consistent (card : Nat → Nat) (factors : List (Factor Nat ℚ)) : Prop :=
  ∀ f ∈ factors, f.vars.Nodup ∧ f.cards = f.vars.map card

namespace TableNetwork

open DenseTable

variable {card : Nat → Nat} {factors : List (Factor Nat ℚ)}

/-- The tables of a network have the weight of some factors. -/
structure Holds (card : Nat → Nat) (factors : List (Factor Nat ℚ)) (n : TableNetwork ℚ) :
    Prop where
  fits : ∀ t ∈ n.tables, t.Fits card
  scope : ∀ v, v ∈ scopeOf n.tables ↔ v ∈ variablesOf factors
  weight : ∀ a, InRange card a → weightOf n.tables a = jointWeight factors a
  cards : ∀ v ∈ variablesOf factors, n.cards.getD v 0 = card v

theorem Holds.cardOf (hcard : ∀ v, 0 < card v) {n : TableNetwork ℚ} (hn : n.Holds card factors)
    {v : Nat} (hv : v ∈ variablesOf factors) : n.cardOf v = .ok (card v) := by
  have hvalue := hn.cards v hv
  have hpositive := hcard v
  rw [Array.getD_eq_getD_getElem?] at hvalue
  unfold TableNetwork.cardOf
  cases hget : n.cards[v]? with
  | none =>
      rw [hget, Option.getD_none] at hvalue
      omega
  | some count =>
      rw [hget, Option.getD_some] at hvalue
      subst count
      cases hcount : card v with
      | zero => omega
      | succ count => rfl

theorem getD_extended (cards : Array Nat) (count u : Nat) :
    (cards ++ Array.replicate count 0).getD u 0 = cards.getD u 0 := by
  rw [Array.getD_eq_getD_getElem?, Array.getD_eq_getD_getElem?, Array.getElem?_append]
  split
  next hlt => rfl
  next hge =>
    rw [Array.getElem?_eq_none (Nat.le_of_not_lt hge), Array.getElem?_replicate]
    split <;> rfl

theorem noteCard_ok {label : String} {cards noted : Array Nat} {v c : Nat}
    (hnoted : noteCard label cards (v, c) = .ok noted) (u : Nat) :
    noted.getD u 0 = if u = v then c else cards.getD u 0 := by
  unfold noteCard at hnoted
  dsimp only at hnoted
  split at hnoted
  · cases hnoted
  · rw [Except.ok.injEq] at hnoted
    subst noted
    rw [Array.getD_eq_getD_getElem?, Array.getElem?_setIfInBounds]
    by_cases huv : u = v
    · subst u
      have hlt : v < cards.size + (v + 1 - cards.size) := by
        omega
      simp [hlt]
    · rw [if_neg (Ne.symm huv), if_neg huv, ← Array.getD_eq_getD_getElem?, getD_extended]

theorem noteCards_ok {label : String} {vars : List Nat} {cards noted : Array Nat}
    (hnoted : (vars.zip (vars.map card)).foldlM (noteCard label) cards = .ok noted) (u : Nat) :
    noted.getD u 0 = if u ∈ vars then card u else cards.getD u 0 := by
  induction vars generalizing cards with
  | nil =>
      cases hnoted
      simp
  | cons v vars ih =>
      rw [List.map_cons, List.zip_cons_cons] at hnoted
      obtain ⟨next, hfirst, hrest⟩ := foldlM_cons_eq_ok_iff.mp hnoted
      rw [ih hrest, noteCard_ok hfirst]
      by_cases huv : u = v
      · subst u
        simp
      · simp [huv]

theorem mem_variablesOf_append {f : Factor Nat ℚ} {v : Nat} :
    v ∈ variablesOf (factors ++ [f]) ↔ v ∈ variablesOf factors ∨ v ∈ f.vars := by
  simp [mem_variablesOf, or_and_right, exists_or]

theorem addFactor_holds {label : String} {n next : TableNetwork ℚ} {f : Factor Nat ℚ}
    {number : Nat} (hn : n.Holds card factors) (hnodup : f.vars.Nodup)
    (hcards : f.cards = f.vars.map card) (hnext : addFactor label n (f, number) = .ok next) :
    next.Holds card (factors ++ [f]) ∧ next.limit = n.limit := by
  unfold addFactor at hnext
  dsimp only at hnext
  rw [hcards] at hnext
  obtain ⟨noted, hnoted, hnext⟩ := bind_eq_ok_iff.mp hnext
  obtain ⟨t, htable, hnext⟩ := bind_eq_ok_iff.mp hnext
  cases hnext
  obtain ⟨hvars, hfits, hweight⟩ := ofFactor_ok hnodup hcards htable
  refine ⟨⟨?_, ?_, ?_, ?_⟩, rfl⟩
  · rw [List.forall_mem_append, List.forall_mem_singleton]
    exact ⟨hn.fits, hfits⟩
  · intro v
    rw [scopeOf_append, scopeOf_singleton, hvars, mem_variablesOf_append, ← hn.scope]
    rfl
  · intro a ha
    rw [weightOf_append, weightOf_singleton, hn.weight a ha, hweight a ha, jointWeight_append]
    simp [jointWeight]
  · intro v hv
    rw [noteCards_ok hnoted]
    split
    next hown => rfl
    next hother => exact hn.cards v ((mem_variablesOf_append.mp hv).resolve_right hother)

theorem addFactors_holds {label : String} {more : List (Factor Nat ℚ)} {number : Nat}
    {n loaded : TableNetwork ℚ} (hn : n.Holds card factors) (hmore : Consistent card more)
    (hloaded : (more.zipIdx number).foldlM (addFactor label) n = .ok loaded) :
    loaded.Holds card (factors ++ more) ∧ loaded.limit = n.limit := by
  induction more generalizing factors number n with
  | nil =>
      cases hloaded
      rw [List.append_nil]
      exact ⟨hn, rfl⟩
  | cons f more ih =>
      rw [Consistent, List.forall_mem_cons] at hmore
      obtain ⟨⟨hnodup, hcards⟩, hrest⟩ := hmore
      rw [List.zipIdx_cons] at hloaded
      obtain ⟨next, hnext, hlater⟩ := foldlM_cons_eq_ok_iff.mp hloaded
      obtain ⟨hholds, hlimit⟩ := addFactor_holds hn hnodup hcards hnext
      obtain ⟨hall, hsame⟩ := ih hholds hrest hlater
      rw [List.append_assoc] at hall
      exact ⟨hall, hsame.trans hlimit⟩

theorem ofFactors_holds {label : String} {limit : Nat} {n : TableNetwork ℚ}
    (hfactors : Consistent card factors) (hn : ofFactors label limit factors = .ok n) :
    n.Holds card factors ∧ n.limit = limit := by
  have hempty : Holds card [] (⟨[], #[], limit⟩ : TableNetwork ℚ) := by
    refine ⟨by simp, ?_, fun a _ => rfl, ?_⟩
    · intro v
      simp [scopeOf, mem_variablesOf]
    · intro v hv
      simp [mem_variablesOf] at hv
  exact addFactors_holds hempty hfactors hn

end TableNetwork

end DerivationBelief

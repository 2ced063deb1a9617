import DerivationBelief.FactorGraph
import DerivationBelief.Proofs.ClauseWidths
import DerivationBelief.Proofs.ExactFractions
import DerivationBelief.Proofs.FactorWeights
import DerivationBelief.Proofs.FaultyRuns
import DerivationBelief.Proofs.WordArithmetic
import Mathlib.Tactic

/-!
# The states of a clause fit a word

A clause lists one joint state for every state of its body, or two when it has a control.  The state
of the body is the quotient of a joint state by the states of the head and the control, so no joint
state is listed twice.  A clause has at most one variable more than the limit on clauses, and with
at most 63 variables no operation on its 64-bit states wraps around.
-/

namespace DerivationBelief

variable {α : Type} [Scalar α]

namespace Factor

/-! ## The joint states of a body state -/

/-- The number of joint states of the head and the control. -/
def headStates (gated : Bool) : Nat :=
  if gated then 4 else 2

/-- The number of joint states that a clause lists for a state of its body. -/
def statesPerBody (gated : Bool) : Nat :=
  if gated then 2 else 1

variable {gated value : Bool} {state : Nat}

theorem headStates_eq_pow (gated : Bool) : headStates gated = 2 ^ (1 + gated.toNat) := by
  cases gated <;> rfl

theorem headStates_pos (gated : Bool) : 0 < headStates gated := by
  cases gated <;> decide

theorem statesPerBody_lt (gated : Bool) : statesPerBody gated < headStates gated := by
  cases gated <;> decide

theorem bodyStates_length (gated value : Bool) (state : Nat) :
    (bodyStates gated value state).length = statesPerBody gated := by
  cases gated <;> rfl

theorem bodyStates_nodup (gated value : Bool) (state : Nat) :
    (bodyStates gated value state).Nodup := by
  cases gated
  · exact List.nodup_singleton _
  · simp only [bodyStates, if_true, List.nodup_cons, List.mem_singleton, List.not_mem_nil,
      not_false_eq_true, List.nodup_nil, and_true]
    omega

/-- A joint state determines the state of the body that it is listed for. -/
theorem bodyStates_div {joint : Nat} (hjoint : joint ∈ bodyStates gated value state) :
    joint / headStates gated = state := by
  have hbit := Bool.toNat_lt value
  cases gated
  · rw [bodyStates, if_neg Bool.false_ne_true, List.mem_singleton] at hjoint
    simp only [headStates, if_neg Bool.false_ne_true]
    omega
  · simp only [bodyStates, if_true, List.mem_cons, List.not_mem_nil, or_false] at hjoint
    simp only [headStates, if_true]
    omega

/-- The same joint states, computed with 64-bit operations. -/
def bodyStates? (gated value : Bool) (state : Nat) : Option (List Nat) :=
  if gated then do
    let block ← Word.mul? state 4
    let passing ← Word.add? block 2
    return [block, ← Word.add? passing value.toNat]
  else do
    let block ← Word.mul? state 2
    return [← Word.add? block value.toNat]

theorem bodyStates?_eq_some (value : Bool)
    (hroom : headStates gated * (state + 1) ≤ Text.word64) :
    bodyStates? gated value state = some (bodyStates gated value state) := by
  have hbit := Bool.toNat_lt value
  cases gated
  · simp only [headStates, if_neg Bool.false_ne_true] at hroom
    simp only [bodyStates?, bodyStates, if_neg Bool.false_ne_true]
    rw [Word.mul?_of_lt (by omega), Option.bind_eq_bind, Option.bind_some,
      Word.add?_of_lt (by omega), Nat.mul_comm]
    rfl
  · simp only [headStates, if_true] at hroom
    simp only [bodyStates?, bodyStates, if_true]
    rw [Word.mul?_of_lt (by omega), Option.bind_eq_bind, Option.bind_some,
      Word.add?_of_lt (by omega), Option.bind_some, Word.add?_of_lt (by omega), Nat.mul_comm]
    rfl

/-! ## The joint states of a clause -/

/-- The joint states of a clause in the order in which they are listed, computed with 64-bit
operations: the bits of the body, the room for the entries, and every joint state. -/
def clauseStates? (connective : Connective) (gated : Bool) (width : Nat) : Option (List Nat) := do
  let bodyCount ← Word.bit? width
  let last ← Word.sub? bodyCount 1
  let count ← Word.add? last 1
  let _room ← Word.mul? count (statesPerBody gated)
  let states ← (List.range (last + 1)).mapM (fun state =>
    bodyStates? gated (connective.holds width state) state)
  return states.flatten

/-- The joint states of a clause with a body of some width: every one is different from the others
and in range, every body state has its own, and 64-bit operations compute them. -/
structure StatesFit (connective : Connective) (gated : Bool) (width : Nat) {ν : Type}
    (t : Factor ν α) : Prop where
  vars_length : t.vars.length = width + 1 + gated.toNat
  distinct : (t.entries.map Prod.fst).Nodup
  below : ∀ entry ∈ t.entries, entry.1 < 2 ^ t.vars.length
  perBody : ∀ state < 2 ^ width,
    t.entries.countP (fun entry => entry.1 / headStates gated = state) = statesPerBody gated
  computed : clauseStates? connective gated width = some (t.entries.map Prod.fst)

variable {ν : Type} {connective : Connective} {head : ν} {control : Option ν} {body : List ν}

theorem clause_states_nodup :
    ((clause connective head control body : Factor ν α).entries.map Prod.fst).Nodup := by
  rw [clause_states, clauseStates_eq, List.nodup_flatMap]
  refine ⟨fun state _ => bodyStates_nodup _ _ state, ?_⟩
  refine List.nodup_range.imp ?_
  intro first second hne joint hfirst hsecond
  exact hne ((bodyStates_div hfirst).symm.trans (bodyStates_div hsecond))

theorem clause_vars_length :
    (clause connective head control body : Factor ν α).vars.length =
      body.length + 1 + control.isSome.toNat := by
  cases control
  · rfl
  · simp only [clause, Option.toList_some, List.length_cons, List.singleton_append,
      Option.isSome_some, Bool.toNat_true]

theorem clause_states_below :
    ∀ entry ∈ (clause connective head control body : Factor ν α).entries,
      entry.1 < 2 ^ (clause connective head control body : Factor ν α).vars.length := by
  intro entry hentry
  have hmem := List.mem_map_of_mem hentry (f := Prod.fst)
  rw [clause_states, clauseStates_eq, List.mem_flatMap] at hmem
  obtain ⟨state, hstate, hjoint⟩ := hmem
  have hpositive := headStates_pos control.isSome
  have hquotient : entry.1 / headStates control.isSome < 2 ^ body.length := by
    rw [bodyStates_div hjoint]
    exact List.mem_range.mp hstate
  rw [Nat.div_lt_iff_lt_mul hpositive, headStates_eq_pow, ← pow_add] at hquotient
  rw [clause_vars_length, Nat.add_assoc]
  exact hquotient

theorem clause_states_perBody {state : Nat} (hstate : state < 2 ^ body.length) :
    (clause connective head control body : Factor ν α).entries.countP
        (fun entry => entry.1 / headStates control.isSome = state) =
      statesPerBody control.isSome := by
  -- All joint states of the body state count, and none of another one.
  have hcount : ∀ other, (bodyStates control.isSome (connective.holds body.length other)
      other).countP (fun joint => joint / headStates control.isSome = state) =
        if other = state then statesPerBody control.isSome else 0 := by
    intro other
    split
    · subst other
      rw [List.countP_eq_length.mpr, bodyStates_length]
      exact fun joint hjoint => decide_eq_true (bodyStates_div hjoint)
    · rename_i hne
      rw [List.countP_eq_zero]
      intro joint hjoint
      simpa [bodyStates_div hjoint] using hne
  calc
    (clause connective head control body : Factor ν α).entries.countP
        (fun entry => entry.1 / headStates control.isSome = state)
        = ((clause connective head control body : Factor ν α).entries.map Prod.fst).countP
            (fun joint => joint / headStates control.isSome = state) := by
          rw [List.countP_map]
          rfl
    _ = ((List.range (2 ^ body.length)).map (fun other =>
          if other = state then statesPerBody control.isSome else 0)).sum := by
          rw [clause_states, clauseStates_eq, List.countP_flatMap]
          exact congrArg List.sum (List.map_congr_left fun other _ => hcount other)
    _ = statesPerBody control.isSome := by
          rw [sum_map_range, Finset.sum_ite_eq', if_pos (Finset.mem_range.mpr hstate)]

theorem clauseStates?_eq_some (hwidth : body.length + 1 + control.isSome.toNat ≤ 63) :
    clauseStates? connective control.isSome body.length =
      some ((clause connective head control body : Factor ν α).entries.map Prod.fst) := by
  set bodyCount := 2 ^ body.length with hbodyCount
  have hpositive : 1 ≤ bodyCount := Nat.one_le_two_pow
  -- No number on the way is larger than the number of joint states of all variables.
  have hroom : headStates control.isSome * bodyCount < Text.word64 := by
    rw [headStates_eq_pow, hbodyCount, ← pow_add]
    exact Word.two_pow_lt (by omega)
  have hentries : bodyCount * statesPerBody control.isSome < Text.word64 := by
    refine lt_of_le_of_lt ?_ hroom
    rw [Nat.mul_comm]
    exact Nat.mul_le_mul_right _ (statesPerBody_lt _).le
  have hcount : bodyCount < Text.word64 := Word.two_pow_lt (by omega)
  have hbodies : (List.range bodyCount).mapM (fun state =>
      bodyStates? control.isSome (connective.holds body.length state) state) =
        some ((List.range bodyCount).map (fun state =>
          bodyStates control.isSome (connective.holds body.length state) state)) := by
    apply mapM_eq_some_map
    intro state hstate
    apply bodyStates?_eq_some
    exact (Nat.mul_le_mul_left _ (List.mem_range.mp hstate)).trans hroom.le
  unfold clauseStates?
  rw [Word.bit?_of_lt (by omega), Option.bind_eq_bind, Option.bind_some, ← hbodyCount,
    Word.sub?_of_le hpositive, Option.bind_some,
    Word.add?_of_lt (by rwa [Nat.sub_add_cancel hpositive]), Option.bind_some,
    Nat.sub_add_cancel hpositive, Word.mul?_of_lt hentries, Option.bind_some, hbodies,
    Option.bind_eq_bind, Option.bind_some, clause_states, clauseStates_eq, Nat.pow_eq, ← hbodyCount, List.flatMap_def]
  rfl

/-- The joint states of a clause fit where it has at most 63 variables. -/
theorem clause_statesFit (connective : Connective) (head : ν) (control : Option ν) {body : List ν}
    (hwidth : body.length + 1 + control.isSome.toNat ≤ 63) :
    StatesFit connective control.isSome body.length
      (clause connective head control body : Factor ν α) where
  vars_length := clause_vars_length
  distinct := clause_states_nodup
  below := clause_states_below
  perBody := fun _ hstate => clause_states_perBody hstate
  computed := clauseStates?_eq_some hwidth

end Factor

namespace Splitting

open FactorGraph Lowering in
/-- Splitting a body ends for every limit that is allowed, after the passes of the loop and with
nothing else: at most as many body nodes are left as there is room for, and at least one of a body
that has any.  Every phony node and the head get a clause with at most 63 variables, one more than
the limit, and the joint states of these clauses fit. -/
theorem split_states_fit (connective : Connective) (head : Slot) (control : Option Slot)
    (next : Nat) (body : List Slot) {limit : Nat} (hlow : 2 ≤ limit)
    (hhigh : limit ≤ maxClauseLimit) :
    let s : Splitting α := ofBody connective limit (bodyRoom limit control) next body
    let kept : Factor Slot α := .clause connective head control s.body
    (∀ r, Passes connective limit (bodyRoom limit control) next body r ↔ r = s) ∧
      s.body.length ≤ bodyRoom limit control ∧ (body ≠ [] → s.body ≠ []) ∧
      (∀ (c : Lowering α) (earlier : List (Factor Slot α)) (derivation : Nat × List Nat),
        c.clauseLimit = limit → c.controlOf derivation.1 = .ok control →
        Slot.own derivation.1 = head → derivation.2.map Slot.own = body →
          c.emitClause connective ⟨earlier, next⟩ derivation =
            .ok ⟨earlier ++ s.factors ++ [kept], s.next⟩) ∧
      (∀ t ∈ s.factors ++ [kept], t.vars.length ≤ limit + 1) ∧ limit + 1 ≤ 63 ∧
      (∀ t ∈ s.factors, Factor.StatesFit connective false limit t) ∧
      Factor.StatesFit connective control.isSome s.body.length kept := by
  intro s kept
  have hs : Passes connective limit (bodyRoom limit control) next body s :=
    ofBody_passes connective hlow (le_bodyRoom_add_one limit control) next body
  have hlimit : limit + 1 ≤ 63 := Nat.succ_le_succ hhigh
  have hroom := bodyRoom_add control (show 1 ≤ limit by omega)
  have hgate : control.isSome.toNat = control.toList.length := by cases control <;> rfl
  have hbody := hs.body_length_le
  have hphony : ∀ t ∈ s.factors, Factor.StatesFit connective false limit t := by
    intro t ht
    obtain ⟨phony, inner, rfl, rfl⟩ := hs.factor t ht
    exact Factor.clause_statesFit connective phony none hlimit
  have hkept : Factor.StatesFit connective control.isSome s.body.length kept :=
    Factor.clause_statesFit connective head control (by omega)
  refine ⟨fun r => ⟨fun hr => hr.unique hs, fun hr => hr ▸ hs⟩, hbody, hs.body_ne_nil, ?_, ?_,
    hlimit, hphony, hkept⟩
  · rintro c earlier derivation rfl hcontrol rfl rfl
    unfold Lowering.emitClause
    rw [hcontrol]
    rfl
  · rw [List.forall_mem_append, List.forall_mem_singleton]
    constructor
    · intro t ht
      exact ((hphony t ht).vars_length).le
    · rw [hkept.vars_length]
      omega

/-- Behind a control, 150 body nodes at the largest limit take one pass with two phony nodes. -/
theorem wideBody_states_fit :
    let body := (List.range 150).map Slot.own
    let s : Splitting ℚ := ofBody .all 62 61 200 body
    let kept : Factor Slot ℚ := .clause .all (.own 160) (some (.own 170)) s.body
    s.factors.length = 2 ∧ s.body.length = 28 ∧
      (∀ t ∈ s.factors, Factor.StatesFit .all false 62 t) ∧
      Factor.StatesFit .all true s.body.length kept := by
  intro body s kept
  obtain ⟨_, _, _, _, _, _, hphony, hkept⟩ := split_states_fit (α := ℚ) .all (.own 160)
    (some (.own 170)) 200 body (show 2 ≤ 62 by decide) (le_refl 62)
  exact ⟨by decide +kernel, by decide +kernel, hphony, hkept⟩

end Splitting

end DerivationBelief

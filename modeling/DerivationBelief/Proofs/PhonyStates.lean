import DerivationBelief.FactorGraph
import DerivationBelief.Proofs.ClauseWidths
import DerivationBelief.Proofs.PhonyDecomposition
import Mathlib.Tactic

/-!
# Phony nodes have exactly one right state

A phony node stands for the value of its body, in which only nodes of the split body and earlier
phony nodes occur.  So the states of the phony nodes are determined one after the other: for every
assignment to the head, the control and the body there is exactly one way to give the phony nodes
states that their factors allow.  With these states the factor of the split body weighs as that of
the whole body, and summing the phony nodes out of the product of all factors leaves the latter.
-/

namespace DerivationBelief

/-! ## States that earlier states determine -/

section Triangular

variable {count : Nat} {value : Fin count → (Fin count → Bool) → Bool}

theorem exists_states_upTo
    (hearlier : ∀ i s t, (∀ j < i, s j = t j) → value i s = value i t) {bound : Nat}
    (hbound : bound ≤ count) :
    ∃ states : Fin count → Bool, ∀ i : Fin count, i < bound → states i = value i states := by
  induction bound with
  | zero => exact ⟨fun _ => false, fun i hi => absurd hi (Nat.not_lt_zero i)⟩
  | succ bound ih =>
      obtain ⟨states, hstates⟩ := ih (Nat.le_of_succ_le hbound)
      set last : Fin count := ⟨bound, hbound⟩
      -- The next state is changed, which no state up to it depends on.
      have hsame : ∀ i ≤ last,
          value i (Function.update states last (value last states)) = value i states := by
        intro i hi
        apply hearlier
        intro j hj
        exact Function.update_of_ne (hj.trans_le hi).ne _ _
      refine ⟨Function.update states last (value last states), ?_⟩
      intro i hi
      rw [hsame i (Nat.lt_succ_iff.mp hi)]
      by_cases hlast : i = last
      · rw [hlast, Function.update_self]
      · rw [Function.update_of_ne hlast]
        exact hstates i ((Nat.lt_succ_iff.mp hi).lt_of_ne (fun heq => hlast (Fin.ext heq)))

/-- States each of which is the value that the earlier ones give it exist, and only once. -/
theorem existsUnique_states
    (hearlier : ∀ i s t, (∀ j < i, s j = t j) → value i s = value i t) :
    ∃! states : Fin count → Bool, ∀ i, states i = value i states := by
  obtain ⟨states, hstates⟩ := exists_states_upTo hearlier le_rfl
  refine ⟨states, fun i => hstates i i.isLt, ?_⟩
  intro others hothers
  funext i
  induction hi : i.val using Nat.strong_induction_on generalizing i with
  | _ n ih =>
      subst n
      rw [hothers i, hstates i i.isLt]
      exact hearlier i others states (fun j hj => ih j hj j rfl)

end Triangular

/-! ## Assignments to phony nodes -/

/-- A parameter, or a place in front of a bound. -/
def Slot.Before (bound : Nat) : Slot → Prop
  | .parameter _ => True
  | .own place => place < bound

theorem Slot.Before.mono {low high : Nat} {slot : Slot} (hslot : slot.Before low)
    (hle : low ≤ high) : slot.Before high := by
  cases slot with
  | parameter dist => trivial
  | own place => exact Nat.lt_of_lt_of_le hslot hle

/-- An assignment with other states for the places from `first` on. -/
def withPhonies (a : Slot → Nat) (first : Nat) {count : Nat} (states : Fin count → Bool) :
    Slot → Nat
  | .parameter dist => a (.parameter dist)
  | .own place =>
      if h : first ≤ place ∧ place - first < count then (states ⟨place - first, h.2⟩).toNat
      else a (.own place)

section WithPhonies

variable {a : Slot → Nat} {first count : Nat} {states others : Fin count → Bool}

theorem withPhonies_of_before {slot : Slot} (hslot : slot.Before first) :
    withPhonies a first states slot = a slot := by
  cases slot with
  | parameter dist => rfl
  | own place =>
      have hlt : place < first := hslot
      exact dif_neg (fun h => absurd h.1 (Nat.not_le.mpr hlt))

theorem withPhonies_phony (i : Fin count) :
    withPhonies a first states (.own (first + i)) = (states i).toNat := by
  simp [withPhonies]

theorem withPhonies_congr {bound : Nat} (hsame : ∀ j : Fin count, j < bound → states j = others j)
    {slot : Slot} (hslot : slot.Before (first + bound)) :
    withPhonies a first states slot = withPhonies a first others slot := by
  cases slot with
  | parameter dist => rfl
  | own place =>
      have hlt : place < first + bound := hslot
      by_cases h : first ≤ place ∧ place - first < count
      · have hearlier : place - first < bound := by omega
        simp only [withPhonies, dif_pos h, hsame ⟨place - first, h.2⟩ hearlier]
      · simp only [withPhonies, dif_neg h]

end WithPhonies

/-! ## The factors of phony nodes -/

theorem PhonyNode.factor_weightAt {p : PhonyNode} {b : Slot → Nat} (hplace : b (.own p.place) < 2)
    (hbody : ∀ slot ∈ p.body, b slot < 2) :
    p.factor.weightAt b = agreement (decide (b (.own p.place) = 1)) (p.value b) := by
  unfold PhonyNode.factor
  rw [Factor.clause_weightAt p.connective hplace (by simp) hbody]
  simp [PhonyNode.value]

theorem agreement_ne_zero_iff {value expected : Bool} :
    agreement value expected ≠ 0 ↔ value = expected := by
  unfold agreement
  split <;> simp_all

namespace Splitting

variable {connective : Connective} {next count : Nat} {body : List Slot} {s : Splitting ℚ}
  {nodes : List PhonyNode} {a : Slot → Nat} {states : Fin count → Bool}

theorem Sound.place_eq (hs : Sound connective next body s nodes) {i : Nat} {p : PhonyNode}
    (hp : nodes[i]? = some p) : p.place = next + i := by
  have hplace : (nodes.map PhonyNode.place)[i]? = some p.place := by
    rw [List.getElem?_map, hp, Option.map_some]
  rw [hs.places, List.getElem?_range' (List.getElem?_eq_some_iff.mp hp).1, Nat.one_mul,
    Option.some.injEq] at hplace
  exact hplace.symm

theorem Usable.exists_earlier {slot : Slot} {earlier : Nat}
    (hslot : Usable body next (next + earlier) slot) :
    slot ∈ body ∨ ∃ j < earlier, slot = .own (next + j) := by
  rcases hslot with hmem | ⟨place, rfl, hle, hlt⟩
  · exact Or.inl hmem
  · obtain ⟨j, rfl⟩ := Nat.exists_eq_add_of_le hle
    exact Or.inr ⟨j, Nat.lt_of_add_lt_add_left hlt, rfl⟩

theorem Usable.before {slot : Slot} {last : Nat} (hslot : Usable body next last slot)
    (hbody : ∀ t ∈ body, t.Before next) (hlast : next ≤ last) : slot.Before last := by
  rcases hslot with hmem | ⟨place, rfl, _, hlt⟩
  · exact (hbody slot hmem).mono hlast
  · exact hlt

/-- The states of the body and of the phony nodes are binary. -/
theorem Usable.state_lt {slot : Slot} {last : Nat} (hslot : Usable body next last slot)
    (hbody : ∀ t ∈ body, t.Before next) (hstates : ∀ t ∈ body, a t < 2)
    (hlast : last ≤ next + count) : withPhonies a next states slot < 2 := by
  rcases hslot with hmem | ⟨place, rfl, hle, hlt⟩
  · rw [withPhonies_of_before (hbody slot hmem)]
    exact hstates slot hmem
  · obtain ⟨i, rfl⟩ := Nat.exists_eq_add_of_le hle
    have hi : i < count := by omega
    rw [withPhonies_phony ⟨i, hi⟩]
    exact Bool.toNat_lt _

/-- A phony factor weighs whether its node is right. -/
theorem Sound.factor_weightAt (hs : Sound connective next body s nodes)
    (hcount : nodes.length = count) (hbody : ∀ t ∈ body, t.Before next)
    (hstates : ∀ t ∈ body, a t < 2) {p : PhonyNode} (hp : p ∈ nodes) :
    p.factor.weightAt (withPhonies a next states) =
      agreement (decide (withPhonies a next states (.own p.place) = 1))
        (p.value (withPhonies a next states)) := by
  obtain ⟨i, hi⟩ := List.mem_iff_getElem?.mp hp
  have hlt : i < count := hcount ▸ (List.getElem?_eq_some_iff.mp hi).1
  apply PhonyNode.factor_weightAt
  · rw [hs.place_eq hi, withPhonies_phony ⟨i, hlt⟩]
    exact Bool.toNat_lt _
  · intro slot hslot
    refine (hs.node_body p hp slot hslot).state_lt hbody hstates ?_
    rw [hs.place_eq hi]
    omega

theorem Sound.allowed_iff (hs : Sound connective next body s nodes)
    (hcount : nodes.length = count) (hbody : ∀ t ∈ body, t.Before next)
    (hstates : ∀ t ∈ body, a t < 2) :
    (∀ t ∈ s.factors, t.weightAt (withPhonies a next states) ≠ 0) ↔
      ∀ p ∈ nodes, p.Right (withPhonies a next states) := by
  rw [hs.factors_eq, List.forall_mem_map]
  refine forall₂_congr (fun p hp => ?_)
  rw [hs.factor_weightAt hcount hbody hstates hp, agreement_ne_zero_iff]
  rfl

/-- The value that the states of the other variables give a phony node. -/
def rightState (nodes : List PhonyNode) (a : Slot → Nat) (first : Nat) (i : Fin count)
    (states : Fin count → Bool) : Bool :=
  (nodes[i.val]?.map (fun p => p.value (withPhonies a first states))).getD false

theorem Sound.rightState_earlier (hs : Sound connective next body s nodes)
    (hbody : ∀ t ∈ body, t.Before next) (i : Fin count) (states others : Fin count → Bool)
    (hsame : ∀ j < i, states j = others j) :
    rightState nodes a next i states = rightState nodes a next i others := by
  unfold rightState
  cases hp : nodes[i.val]? with
  | none => rfl
  | some p =>
      have hinner : p.body.map (withPhonies a next states) =
          p.body.map (withPhonies a next others) := by
        apply List.map_congr_left
        intro slot hslot
        have hle := hs.le_place (List.mem_of_getElem? hp)
        have hbefore := (hs.node_body p (List.mem_of_getElem? hp) slot hslot).before hbody hle
        rw [hs.place_eq hp] at hbefore
        exact withPhonies_congr hsame hbefore
      simp only [Option.map_some, Option.getD_some, PhonyNode.value, hinner]

theorem Sound.right_iff (hs : Sound connective next body s nodes)
    (hcount : nodes.length = count) :
    (∀ p ∈ nodes, p.Right (withPhonies a next states)) ↔
      ∀ i, states i = rightState nodes a next i states := by
  have hone : ∀ (i : Fin count) (p : PhonyNode), nodes[i.val]? = some p →
      (p.Right (withPhonies a next states) ↔ states i = rightState nodes a next i states) := by
    intro i p hp
    unfold PhonyNode.Right rightState
    rw [hs.place_eq hp, withPhonies_phony, hp, Option.map_some, Option.getD_some]
    cases states i <;> simp
  constructor
  · intro hall i
    have hp : nodes[i.val]? = some nodes[i.val] := List.getElem?_eq_getElem (hcount ▸ i.isLt)
    exact (hone i _ hp).mp (hall _ (List.mem_of_getElem? hp))
  · intro hall p hp
    obtain ⟨place, hplace⟩ := List.mem_iff_getElem?.mp hp
    have hlt : place < count := hcount ▸ (List.getElem?_eq_some_iff.mp hplace).1
    exact (hone ⟨place, hlt⟩ p hplace).mpr (hall ⟨place, hlt⟩)

theorem Sound.existsUnique_allowed (hs : Sound connective next body s nodes)
    (hcount : nodes.length = count) (hbody : ∀ t ∈ body, t.Before next)
    (hstates : ∀ t ∈ body, a t < 2) :
    ∃! states : Fin count → Bool,
      ∀ t ∈ s.factors, t.weightAt (withPhonies a next states) ≠ 0 := by
  simp only [hs.allowed_iff hcount hbody hstates, hs.right_iff hcount]
  exact existsUnique_states (hs.rightState_earlier hbody)

variable {head : Slot} {control : Option Slot}

/-- With allowed states the split body has the weight of the whole one. -/
theorem Sound.kept_weightAt (hs : Sound connective next body s nodes)
    (hcount : nodes.length = count)
    (hbefore : ∀ t ∈ head :: (control.toList ++ body), t.Before next)
    (hstates : ∀ t ∈ head :: (control.toList ++ body), a t < 2)
    (hallowed : ∀ t ∈ s.factors, t.weightAt (withPhonies a next states) ≠ 0) :
    (Factor.clause connective head control s.body : Factor Slot ℚ).weightAt
        (withPhonies a next states) =
      (Factor.clause connective head control body : Factor Slot ℚ).weightAt a := by
  rw [List.forall_mem_cons, List.forall_mem_append] at hbefore hstates
  obtain ⟨hhead, hcontrol, hbody⟩ := hbefore
  obtain ⟨hheadState, hcontrolState, hbodyState⟩ := hstates
  have hold : ∀ t : Slot, t.Before next → withPhonies a next states t = a t :=
    fun t ht => withPhonies_of_before ht
  have hkept : ∀ t ∈ s.body, withPhonies a next states t < 2 := by
    intro t ht
    refine (hs.body_usable t ht).state_lt hbody hbodyState ?_
    rw [hs.next_eq, hcount]
  have hgate : control.all (fun c => withPhonies a next states c = 1) =
      control.all (fun c => a c = 1) := by
    cases control with
    | none => rfl
    | some c => simp [hold c (hcontrol c (by simp))]
  have hvalue : connective.value (s.body.map (withPhonies a next states)) =
      connective.value (body.map a) := by
    rw [hs.value_eq _ ((hs.allowed_iff hcount hbody hbodyState).mp hallowed)]
    congr 1
    exact List.map_congr_left (fun t ht => hold t (hbody t ht))
  rw [Factor.clause_weightAt connective (hold head hhead ▸ hheadState) _ hkept,
    Factor.clause_weightAt connective hheadState _ hbodyState, hold head hhead, hgate, hvalue]
  · exact fun c hc => hcontrolState c (by simpa using hc)
  · intro c hc
    rw [hold c (hcontrol c (by simpa using hc))]
    exact hcontrolState c (by simpa using hc)

/-- Summing the phony nodes out of the product of all factors leaves the factor of the whole
body. -/
theorem Sound.sum_phonies (hs : Sound connective next body s nodes)
    (hcount : nodes.length = count)
    (hbefore : ∀ t ∈ head :: (control.toList ++ body), t.Before next)
    (hstates : ∀ t ∈ head :: (control.toList ++ body), a t < 2) :
    ∑ states : Fin count → Bool,
        ((s.factors.map (fun t => t.weightAt (withPhonies a next states))).prod *
          (Factor.clause connective head control s.body : Factor Slot ℚ).weightAt
            (withPhonies a next states)) =
      (Factor.clause connective head control body : Factor Slot ℚ).weightAt a := by
  have hbody : ∀ t ∈ body, t.Before next := fun t ht => hbefore t (by simp [ht])
  have hbodyState : ∀ t ∈ body, a t < 2 := fun t ht => hstates t (by simp [ht])
  obtain ⟨right, hallowed, hunique⟩ := hs.existsUnique_allowed hcount hbody hbodyState
  rw [Fintype.sum_eq_single right]
  · have hright := (hs.allowed_iff hcount hbody hbodyState).mp hallowed
    have hones : (s.factors.map (fun t => t.weightAt (withPhonies a next right))).prod = 1 := by
      apply List.prod_eq_one
      rw [hs.factors_eq, List.map_map, List.forall_mem_map]
      intro p hp
      exact (hs.factor_weightAt hcount hbody hbodyState hp).trans (if_pos (hright p hp))
    rw [hones, one_mul, hs.kept_weightAt hcount hbefore hstates hallowed]
  · intro states hne
    have hzero : ∃ t ∈ s.factors, t.weightAt (withPhonies a next states) = 0 := by
      by_contra hnone
      push Not at hnone
      exact hne (hunique states hnone)
    obtain ⟨t, ht, hweight⟩ := hzero
    rw [List.prod_eq_zero (List.mem_map.mpr ⟨t, ht, hweight⟩), zero_mul]

open FactorGraph Lowering in
/-- A body is split by fresh consecutive phony nodes over body nodes and earlier phony nodes.  For
every assignment to the head, the control and the body, exactly one assignment to the phony nodes is
allowed by all of their factors; with it the factor of the split body weighs as the one of the whole
body, and so does the sum over the phony nodes of the product of all factors. -/
theorem phony_states_exact (connective : Connective) (head : Slot) (control : Option Slot)
    {body : List Slot} {next limit : Nat} (hlow : 2 ≤ limit)
    (hbefore : ∀ t ∈ head :: (control.toList ++ body), t.Before next) :
    let s : Splitting ℚ := ofBody connective limit (bodyRoom limit control) next body
    let kept : Factor Slot ℚ := .clause connective head control s.body
    let whole : Factor Slot ℚ := .clause connective head control body
    (∀ (c : Lowering ℚ) (earlier : List (Factor Slot ℚ)) (derivation : Nat × List Nat),
      c.clauseLimit = limit → c.controlOf derivation.1 = .ok control →
      Slot.own derivation.1 = head → derivation.2.map Slot.own = body →
        c.emitClause connective ⟨earlier, next⟩ derivation =
          .ok ⟨earlier ++ s.factors ++ [kept], s.next⟩) ∧
      s.next = next + s.factors.length ∧ s.body.length ≤ bodyRoom limit control ∧
      (∀ i, Slot.own (next + i) ∉ head :: (control.toList ++ body)) ∧
      (∀ (i : Nat) (t : Factor Slot ℚ), s.factors[i]? = some t → ∃ inner : List Slot,
        t = .clause connective (.own (next + i)) none inner ∧
          ∀ slot ∈ inner, slot ∈ body ∨ ∃ j < i, slot = .own (next + j)) ∧
      (∀ slot ∈ s.body, slot ∈ body ∨ ∃ j < s.factors.length, slot = .own (next + j)) ∧
      ∀ a : Slot → Nat, (∀ t ∈ head :: (control.toList ++ body), a t < 2) →
        (∃! states : Fin s.factors.length → Bool,
          ∀ t ∈ s.factors, t.weightAt (withPhonies a next states) ≠ 0) ∧
        (∀ states : Fin s.factors.length → Bool,
          (∀ t ∈ s.factors, t.weightAt (withPhonies a next states) ≠ 0) →
            kept.weightAt (withPhonies a next states) = whole.weightAt a) ∧
        ∑ states : Fin s.factors.length → Bool,
            ((s.factors.map (fun t => t.weightAt (withPhonies a next states))).prod *
              kept.weightAt (withPhonies a next states)) = whole.weightAt a := by
  intro s kept whole
  obtain ⟨nodes, hs⟩ : ∃ nodes, Sound connective next body s nodes :=
    ofBody_sound connective limit (bodyRoom limit control) next body
  have hcount : nodes.length = s.factors.length := by
    rw [hs.factors_eq, List.length_map]
  have hbody : ∀ t ∈ body, t.Before next := fun t ht => hbefore t (by simp [ht])
  refine ⟨?_, ?_, ?_, ?_, ?_, ?_, ?_⟩
  · rintro c earlier derivation rfl hcontrol rfl rfl
    unfold Lowering.emitClause
    rw [hcontrol]
    rfl
  · rw [← hcount, hs.next_eq]
  · exact (ofBody_passes connective hlow (le_bodyRoom_add_one limit control) next
      body).body_length_le
  · intro i hmem
    have hlt : next + i < next := hbefore _ hmem
    omega
  · intro i t ht
    rw [hs.factors_eq, List.getElem?_map] at ht
    obtain ⟨p, hp, rfl⟩ := Option.map_eq_some_iff.mp ht
    have hmem : p ∈ nodes := List.mem_of_getElem? hp
    refine ⟨p.body, ?_, ?_⟩
    · rw [PhonyNode.factor, hs.same_connective p hmem, hs.place_eq hp]
    · intro slot hslot
      have husable := hs.node_body p hmem slot hslot
      rw [hs.place_eq hp] at husable
      exact husable.exists_earlier
  · intro slot hslot
    have husable := hs.body_usable slot hslot
    rw [hs.next_eq, hcount] at husable
    exact husable.exists_earlier
  · intro a hstates
    have hbodyState : ∀ t ∈ body, a t < 2 := fun t ht => hstates t (by simp [ht])
    exact ⟨hs.existsUnique_allowed hcount hbody hbodyState,
      fun states => hs.kept_weightAt hcount hbefore hstates,
      hs.sum_phonies hcount hbefore hstates⟩

def fiveNodes : List Slot :=
  [.own 1, .own 2, .own 3, .own 4, .own 5]

/-- Behind a control, five nodes with a limit of two take three passes and four phony nodes. -/
theorem fiveNodes_states_exact :
    let s : Splitting ℚ := ofBody .any 2 1 7 fiveNodes
    s.factors.length = 4 ∧ s.body = [.own 10] ∧
      ∃! states : Fin s.factors.length → Bool,
        ∀ t ∈ s.factors, t.weightAt (withPhonies (fun _ => 1) 7 states) ≠ 0 := by
  intro s
  have hbefore : ∀ t ∈ Slot.own 0 :: ((some (Slot.own 6)).toList ++ fiveNodes), t.Before 7 := by
    simp [fiveNodes, Slot.Before]
  obtain ⟨_, _, _, _, _, _, hexact⟩ :=
    phony_states_exact .any (.own 0) (some (.own 6)) (le_refl 2) hbefore
  exact ⟨rfl, rfl, (hexact (fun _ => 1) (by simp)).1⟩

end Splitting

end DerivationBelief

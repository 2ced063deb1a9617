import DerivationBelief.Proofs.NetworkLoading
import Mathlib.Tactic

/-!
# Variable elimination is exact

Whatever order the unobserved variables are eliminated in, the last table holds the weight of the
evidence, and without the elimination of one variable the weights of its states.  So every answer is
a share of the weight of the evidence.  The greedy order is one of these orders.
-/

namespace DerivationBelief

variable {card : Nat → Nat} {factors : List (Factor Nat ℚ)} {evidence : Evidence}

/-! ## Weights as sums over unobserved variables -/

def firstStates : Assignment :=
  fun _ => 0

def unobserved (factors : List (Factor Nat ℚ)) (evidence : Evidence) : List Nat :=
  (variablesOf factors).filter (fun v => Arrival.get? evidence v = none)

def observedWeight (factors : List (Factor Nat ℚ)) (evidence : Evidence) (a : Assignment) : ℚ :=
  jointWeight factors (override evidence a)

theorem mem_unobserved {v : Nat} :
    v ∈ unobserved factors evidence ↔ v ∈ variablesOf factors ∧ Arrival.get? evidence v = none := by
  simp [unobserved]

theorem unobserved_nodup (factors : List (Factor Nat ℚ)) (evidence : Evidence) :
    (unobserved factors evidence).Nodup :=
  (variablesOf_nodup factors).filter _

theorem totalWeight_congr {property other : Assignment → Prop} [DecidablePred property]
    [DecidablePred other] (hsame : ∀ a, property a ↔ other a) :
    totalWeight card factors property = totalWeight card factors other := by
  unfold totalWeight
  congr 1
  funext a
  exact if_congr (hsame a) rfl rfl

theorem totalWeight_agrees (hevidence : evidence.Below card) :
    totalWeight card factors (Agrees evidence (variablesOf factors)) =
      sumStates card (unobserved factors evidence) (observedWeight factors evidence)
        firstStates := by
  unfold totalWeight
  rw [sumStates_agreeing hevidence (variablesOf_nodup factors) (jointWeight_dependsOn factors)]
  rfl

theorem totalWeight_of_never {property : Assignment → Prop} [DecidablePred property]
    (hnever : ∀ a, ¬ property a) : totalWeight card factors property = 0 := by
  unfold totalWeight
  simp only [hnever, if_false]
  exact sumStates_zero _ _

theorem agrees_put {v s : Nat} (hv : v ∈ unobserved factors evidence) (a : Assignment) :
    Agrees ((v, s) :: evidence) (variablesOf factors) a ↔
      Agrees evidence (variablesOf factors) a ∧ a v = s := by
  obtain ⟨hmem, hnone⟩ := mem_unobserved.mp hv
  constructor
  · intro hagrees
    refine ⟨?_, hagrees v hmem s (by simp [Arrival.get?])⟩
    intro u hu r hr
    have huv : v ≠ u := by
      rintro rfl
      rw [hnone] at hr
      cases hr
    exact hagrees u hu r (by simpa [Arrival.get?, huv] using hr)
  · rintro ⟨hagrees, hs⟩ u hu r hr
    by_cases huv : v = u
    · subst u
      have hsr : s = r := by
        simpa [Arrival.get?] using hr
      rw [hs, hsr]
    · exact hagrees u hu r (by simpa [Arrival.get?, huv] using hr)

theorem unobserved_put (factors : List (Factor Nat ℚ)) (evidence : Evidence) (v s : Nat) :
    unobserved factors ((v, s) :: evidence) = (unobserved factors evidence).erase v := by
  rw [(unobserved_nodup factors evidence).erase_eq_filter]
  unfold unobserved
  rw [List.filter_filter]
  apply List.filter_congr
  intro u _
  by_cases huv : v = u
  · simp [Arrival.get?, huv]
  · simp [Arrival.get?, huv, Ne.symm huv]

/-- The weight of a state of an unobserved variable. -/
theorem stateWeight_unobserved (hevidence : evidence.Below card) {v s : Nat}
    (hv : v ∈ unobserved factors evidence) (hs : s < card v) :
    stateWeight card factors evidence v s =
      sumStates card ((unobserved factors evidence).erase v) (observedWeight factors evidence)
        (Function.update firstStates v s) := by
  have hbelow : Evidence.Below card ((v, s) :: evidence) := by
    rw [Evidence.Below, List.forall_mem_cons]
    exact ⟨hs, hevidence⟩
  have hweight : observedWeight factors ((v, s) :: evidence) =
      fun a => observedWeight factors evidence (Function.update a v s) := by
    funext a
    unfold observedWeight
    rw [override_cons, override_update (mem_unobserved.mp hv).2]
  unfold stateWeight
  rw [← totalWeight_congr (agrees_put hv), totalWeight_agrees hbelow, unobserved_put, hweight,
    sumStates_update (unobserved_nodup factors evidence).not_mem_erase]

/-- The weight of a state of an observed variable. -/
theorem stateWeight_observed {v s state : Nat} (hv : v ∈ variablesOf factors)
    (hstate : Arrival.get? evidence v = some state) :
    stateWeight card factors evidence v s =
      if s = state then evidenceWeight card factors evidence else 0 := by
  have hagreed : ∀ a, Agrees evidence (variablesOf factors) a → a v = state :=
    fun a hagrees => hagrees v hv state hstate
  unfold stateWeight evidenceWeight
  split
  next heq =>
    apply totalWeight_congr
    intro a
    rw [heq]
    exact and_iff_left_of_imp (hagreed a)
  next hne =>
    apply totalWeight_of_never
    rintro a ⟨hagrees, hs⟩
    exact hne (hs.symm.trans (hagreed a hagrees))

/-- The weights of the states of an unobserved variable add up to the weight of the evidence. -/
theorem sum_stateWeight (hevidence : evidence.Below card) {v : Nat}
    (hv : v ∈ unobserved factors evidence) :
    ((List.range (card v)).map (stateWeight card factors evidence v)).sum =
      evidenceWeight card factors evidence := by
  have hrest : ((unobserved factors evidence).erase v ++ [v]).Perm
      (unobserved factors evidence) :=
    (List.perm_append_singleton _ _).trans (List.perm_cons_erase hv).symm
  calc
    ((List.range (card v)).map (stateWeight card factors evidence v)).sum
        = ∑ s ∈ Finset.range (card v), stateWeight card factors evidence v s := by
          rw [← List.sum_toFinset _ List.nodup_range, List.toFinset_range]
    _ = sumState card v (sumStates card ((unobserved factors evidence).erase v)
          (observedWeight factors evidence)) firstStates := by
          apply Finset.sum_congr rfl
          intro s hs
          exact stateWeight_unobserved hevidence hv (Finset.mem_range.mp hs)
    _ = sumStates card (unobserved factors evidence) (observedWeight factors evidence)
          firstStates := by
          rw [← sumStates_perm hrest, sumStates_append]
          rfl
    _ = evidenceWeight card factors evidence := (totalWeight_agrees hevidence).symm

/-! ## What is left at the end -/

/-- An answer is right, and otherwise the evidence has no positive weight or a table is too large
for the limit. -/
def AnswersWith {α : Type} (limit : Nat) (weight : ℚ) (right : α → Prop) :
    Except SolverFault α → Prop
  | .ok answer => right answer
  | .error .inconsistentEvidence => weight ≤ 0
  | .error (.tableTooLarge size bound) => bound = limit ∧ Oversized size limit
  | .error _ => False

theorem AnswersWith.of_refused {α : Type} {limit : Nat} {weight : ℚ} {right : α → Prop}
    {fault : SolverFault} (hfault : RefusedAt limit fault) :
    AnswersWith limit weight right (.error fault) := by
  obtain ⟨size, rfl, hlarge⟩ := hfault
  exact ⟨rfl, hlarge⟩

theorem AnswersWith.imp {α : Type} {limit : Nat} {weight : ℚ} {right rightNext : α → Prop}
    {answer : Except SolverFault α} (hanswer : AnswersWith limit weight right answer)
    (hnext : ∀ a, right a → rightNext a) : AnswersWith limit weight rightNext answer := by
  cases answer with
  | ok a => exact hnext a hanswer
  | error fault => cases fault <;> exact hanswer

theorem AnswersWith.map {α β : Type} {limit : Nat} {weight : ℚ} {right : α → Prop}
    {rightNext : β → Prop} {answer : Except SolverFault α}
    (hanswer : AnswersWith limit weight right answer) {next : α → β}
    (hnext : ∀ a, right a → rightNext (next a)) :
    AnswersWith limit weight rightNext (answer >>= fun a => pure (next a)) := by
  cases answer with
  | ok a => exact hnext a hanswer
  | error fault => cases fault <;> exact hanswer

namespace TableNetwork

open DenseTable

def totalOf (n : TableNetwork ℚ) (left : Except SolverFault (List (DenseTable ℚ))) :
    Except SolverFault ℚ := do
  let left ← left
  let joint ← DenseTable.product left n.limit
  let total := joint.total
  if Scalar.isPositive total then return total else .error .inconsistentEvidence

def sharesOf (n : TableNetwork ℚ) (count : Nat)
    (left : Except SolverFault (List (DenseTable ℚ))) : Except SolverFault (List ℚ) := do
  let left ← left
  let joint ← DenseTable.product left n.limit
  let values :=
    if joint.vars.isEmpty then List.replicate count (joint.value 0) else joint.values.toList
  let total := Scalar.sum values
  if Scalar.isPositive total then return values.map (· / total)
  else .error .inconsistentEvidence

variable {n : TableNetwork ℚ} {left : List (DenseTable ℚ)}

theorem firstStates_inRange (hcard : ∀ v, 0 < card v) : InRange card firstStates :=
  fun v => hcard v

theorem totalOf_spec (hcard : ∀ v, 0 < card v) (hleft : ∀ t ∈ left, t.Fits card)
    (hscope : scopeOf left = ∅) :
    AnswersWith n.limit (weightOf left firstStates)
      (fun total => total = weightOf left firstStates ∧ 0 < total) (n.totalOf (.ok left)) := by
  unfold totalOf
  simp only [bind, Except.bind]
  cases hjoint : DenseTable.product left n.limit with
  | error fault => exact .of_refused (product_error hjoint)
  | ok joint =>
      obtain ⟨hvars, hfits, hweight⟩ := product_ok hcard hleft hjoint
      have hempty : joint.vars = [] := by
        rw [hvars, List.eq_nil_iff_forall_not_mem]
        intro v hv
        have hmem : v ∈ scopeOf left := mem_unionVars.mp hv
        rw [hscope] at hmem
        exact hmem
      have htotal : joint.total = weightOf left firstStates := by
        rw [total_eq, hfits.values_of_none hempty firstStates,
          hweight _ (firstStates_inRange hcard), List.sum_singleton]
        rfl
      dsimp only
      rw [htotal]
      split
      next hpositive => exact ⟨rfl, Scalar.isPositive_iff.mp hpositive⟩
      next hnot => exact le_of_not_gt fun hgt => hnot (Scalar.isPositive_iff.mpr hgt)

theorem sharesOf_spec (hcard : ∀ v, 0 < card v) (hleft : ∀ t ∈ left, t.Fits card) {v : Nat}
    (hscope : scopeOf left = {v}) {weights : List ℚ}
    (hweights : weights = (List.range (card v)).map
      (fun s => weightOf left (Function.update firstStates v s))) :
    AnswersWith n.limit weights.sum
      (fun shares => 0 < weights.sum ∧ shares = weights.map (· / weights.sum))
      (n.sharesOf (card v) (.ok left)) := by
  unfold sharesOf
  simp only [bind, Except.bind]
  cases hjoint : DenseTable.product left n.limit with
  | error fault => exact .of_refused (product_error hjoint)
  | ok joint =>
      obtain ⟨hvars, hfits, hweight⟩ := product_ok hcard hleft hjoint
      have hone : joint.vars = [v] := by
        rw [hvars, ← List.perm_singleton,
          List.perm_ext_iff_of_nodup (unionVars_nodup left) (List.nodup_singleton v)]
        intro u
        rw [mem_unionVars, List.mem_singleton]
        exact Set.ext_iff.mp hscope u
      have hvalues : joint.values.toList = weights := by
        rw [hfits.values_of_one hone firstStates, hweights]
        apply List.map_congr_left
        intro s hs
        exact hweight _ ((firstStates_inRange hcard).update (List.mem_range.mp hs))
      dsimp only
      rw [hone, List.isEmpty_cons, if_neg Bool.false_ne_true, hvalues, Scalar.sum_eq]
      split
      next hpositive => exact ⟨Scalar.isPositive_iff.mp hpositive, rfl⟩
      next hnot => exact le_of_not_gt fun hgt => hnot (Scalar.isPositive_iff.mpr hgt)

/-! ## Answers in some order of elimination -/

/-- The weight of the evidence, with the variables eliminated in a given order. -/
def partitionInOrder (n : TableNetwork ℚ) (evidence : Evidence) (order : List Nat) :
    Except SolverFault ℚ :=
  n.totalOf (n.eliminateInOrder order (n.tables.map (clamp evidence)))

/-- The probability of each state of a variable, with the others eliminated in a given order. -/
def beliefInOrder (n : TableNetwork ℚ) (evidence : Evidence) (v : Nat) (order : List Nat) :
    Except SolverFault (List ℚ) := do
  let count ← n.cardOf v
  match Arrival.get? evidence v with
  | some state => do
      let _ ← n.partitionInOrder evidence order
      return (List.range count).map (fun s => if s = state then 1 else 0)
  | none => n.sharesOf count (n.eliminateInOrder order (n.tables.map (clamp evidence)))

theorem Holds.clamped (hn : n.Holds card factors) (hevidence : evidence.Below card) :
    (∀ t ∈ n.tables.map (clamp evidence), t.Fits card) ∧
      (∀ v, v ∈ scopeOf (n.tables.map (clamp evidence)) ↔ v ∈ unobserved factors evidence) ∧
      ∀ a, InRange card a →
        weightOf (n.tables.map (clamp evidence)) a = observedWeight factors evidence a := by
  refine ⟨?_, ?_, ?_⟩
  · intro t ht
    obtain ⟨s, hs, rfl⟩ := List.mem_map.mp ht
    exact (clamp_spec (hn.fits s hs) hevidence).1
  · intro v
    rw [mem_unobserved, ← hn.scope]
    constructor
    · rintro ⟨s, hs, hv⟩
      obtain ⟨t, ht, rfl⟩ := List.mem_map.mp hs
      obtain ⟨hvt, hnone⟩ := ((clamp_spec (hn.fits t ht) hevidence).2.1 v).mp hv
      exact ⟨⟨t, ht, hvt⟩, hnone⟩
    · rintro ⟨⟨t, ht, hvt⟩, hnone⟩
      refine ⟨clamp evidence t, List.mem_map.mpr ⟨t, ht, rfl⟩, ?_⟩
      exact ((clamp_spec (hn.fits t ht) hevidence).2.1 v).mpr ⟨hvt, hnone⟩
  · intro a ha
    unfold observedWeight
    rw [← hn.weight _ (ha.override hevidence)]
    unfold weightOf
    rw [List.map_map]
    congr 1
    apply List.map_congr_left
    intro t ht
    exact (clamp_spec (hn.fits t ht) hevidence).2.2 a ha

theorem Holds.eliminated (hcard : ∀ v, 0 < card v) (hn : n.Holds card factors)
    (hevidence : evidence.Below card) {order : List Nat} (hnodup : order.Nodup)
    (horder : order ⊆ unobserved factors evidence)
    (hleft : n.eliminateInOrder order (n.tables.map (clamp evidence)) = .ok left) :
    (∀ t ∈ left, t.Fits card) ∧
      (∀ v, v ∈ scopeOf left ↔ v ∈ unobserved factors evidence ∧ v ∉ order) ∧
      ∀ a, InRange card a →
        weightOf left a = sumStates card order (observedWeight factors evidence) a := by
  obtain ⟨hfits, hscope, hweight⟩ := hn.clamped hevidence
  obtain ⟨hleftFits, hleftScope, hleftWeight⟩ :=
    eliminateInOrder_ok hcard hfits hnodup (fun v hv => (hscope v).mpr (horder hv)) hleft
  refine ⟨hleftFits, ?_, ?_⟩
  · intro v
    rw [hleftScope, Set.mem_sdiff, hscope]
    rfl
  · intro a ha
    rw [hleftWeight a ha]
    exact sumStates_congr hweight ha

theorem partitionInOrder_spec (hcard : ∀ v, 0 < card v) (hn : n.Holds card factors)
    (hevidence : evidence.Below card) {order : List Nat}
    (horder : order.Perm (unobserved factors evidence)) :
    AnswersWith n.limit (evidenceWeight card factors evidence)
      (fun total => total = evidenceWeight card factors evidence ∧ 0 < total)
      (n.partitionInOrder evidence order) := by
  unfold partitionInOrder
  cases hleft : n.eliminateInOrder order (n.tables.map (clamp evidence)) with
  | error fault => exact .of_refused (eliminateInOrder_error hleft)
  | ok left =>
      obtain ⟨hfits, hscope, hweight⟩ := hn.eliminated hcard hevidence
        (horder.nodup_iff.mpr (unobserved_nodup factors evidence)) horder.subset hleft
      have hempty : scopeOf left = ∅ := by
        ext v
        rw [hscope, horder.mem_iff]
        simp
      have htotal : weightOf left firstStates = evidenceWeight card factors evidence := by
        rw [hweight _ (firstStates_inRange hcard), sumStates_perm horder]
        exact (totalWeight_agrees hevidence).symm
      rw [← htotal]
      exact totalOf_spec hcard hfits hempty

/-- The weight of each state of a variable as a share of the weight of the evidence. -/
def exactShares (card : Nat → Nat) (factors : List (Factor Nat ℚ)) (evidence : Evidence)
    (v : Nat) : List ℚ :=
  (List.range (card v)).map (fun s =>
    stateWeight card factors evidence v s / evidenceWeight card factors evidence)

/-- The belief of a variable is exact. -/
def ExactBelief (limit : Nat) (card : Nat → Nat) (factors : List (Factor Nat ℚ))
    (evidence : Evidence) (v : Nat) (answer : Except SolverFault (List ℚ)) : Prop :=
  AnswersWith limit (evidenceWeight card factors evidence)
    (fun belief => 0 < evidenceWeight card factors evidence ∧
      belief = exactShares card factors evidence v) answer

theorem beliefInOrder_spec (hcard : ∀ v, 0 < card v) (hn : n.Holds card factors)
    (hevidence : evidence.Below card) {v : Nat} (hv : v ∈ variablesOf factors)
    {order : List Nat} (horder : order.Perm ((unobserved factors evidence).erase v)) :
    ExactBelief n.limit card factors evidence v (n.beliefInOrder evidence v order) := by
  unfold ExactBelief beliefInOrder
  rw [hn.cardOf hcard hv]
  cases hget : Arrival.get? evidence v with
  | some state =>
      have houtside : v ∉ unobserved factors evidence := by
        simp [mem_unobserved, hget]
      rw [List.erase_of_not_mem houtside] at horder
      apply (partitionInOrder_spec hcard hn hevidence horder).map
      rintro total ⟨rfl, hpositive⟩
      refine ⟨hpositive, ?_⟩
      apply List.map_congr_left
      intro s _
      rw [stateWeight_observed hv hget]
      split
      next hsame => exact (div_self (ne_of_gt hpositive)).symm
      next hother => exact (zero_div _).symm
  | none =>
      have hmem : v ∈ unobserved factors evidence := mem_unobserved.mpr ⟨hv, hget⟩
      have hnodup := unobserved_nodup factors evidence
      cases hleft : n.eliminateInOrder order (n.tables.map (clamp evidence)) with
      | error fault => exact .of_refused (eliminateInOrder_error hleft)
      | ok left =>
          obtain ⟨hfits, hscope, hweight⟩ := hn.eliminated hcard hevidence
            (horder.nodup_iff.mpr (hnodup.erase v))
            (fun u hu => List.mem_of_mem_erase (horder.subset hu)) hleft
          have hone : scopeOf left = {v} := by
            ext u
            rw [hscope, horder.mem_iff, hnodup.mem_erase_iff, Set.mem_singleton_iff]
            constructor
            · rintro ⟨hu, hnot⟩
              by_contra hne
              exact hnot ⟨hne, hu⟩
            · rintro rfl
              exact ⟨hmem, fun hu => hu.1 rfl⟩
          have hweights : (List.range (card v)).map (stateWeight card factors evidence v) =
              (List.range (card v)).map
                (fun s => weightOf left (Function.update firstStates v s)) := by
            apply List.map_congr_left
            intro s hs
            have hlt := List.mem_range.mp hs
            rw [stateWeight_unobserved hevidence hmem hlt,
              hweight _ ((firstStates_inRange hcard).update hlt), sumStates_perm horder]
          have hshares := sharesOf_spec hcard hfits hone hweights (n := n)
          rw [sum_stateWeight hevidence hmem, List.map_map] at hshares
          exact hshares

/-! ## The greedy order -/

/-- The greedy elimination goes through the unobserved variables that it does not keep. -/
theorem exists_order_eliminate (hn : n.Holds card factors) (hevidence : evidence.Below card)
    (keep : Option Nat) :
    ∃ order : List Nat,
      order.Perm ((unobserved factors evidence).filter (fun v => some v ≠ keep)) ∧
      n.eliminate evidence keep = n.eliminateInOrder order (n.tables.map (clamp evidence)) := by
  unfold eliminate
  dsimp only
  obtain ⟨order, horder, hrun⟩ := n.exists_order_eliminateAll
    (ascendingSet (((n.tables.map (clamp evidence)).flatMap DenseTable.vars).filter
      (fun v => some v ≠ keep))) (n.tables.map (clamp evidence))
  refine ⟨order, horder.trans ?_, hrun⟩
  rw [List.perm_ext_iff_of_nodup (ascendingSet_nodup _)
    ((unobserved_nodup factors evidence).filter _)]
  intro v
  rw [mem_ascendingSet, List.mem_filter, List.mem_filter, List.mem_flatMap]
  exact and_congr_left' ((hn.clamped hevidence).2.1 v)

theorem partition_eq_inOrder (hn : n.Holds card factors) (hevidence : evidence.Below card) :
    ∃ order : List Nat, order.Perm (unobserved factors evidence) ∧
      n.partition evidence = n.partitionInOrder evidence order := by
  obtain ⟨order, horder, hrun⟩ := exists_order_eliminate hn hevidence none
  refine ⟨order, by simpa using horder, ?_⟩
  unfold partitionInOrder
  rw [← hrun]
  rfl

theorem belief_eq_inOrder (hn : n.Holds card factors) (hevidence : evidence.Below card)
    (v : Nat) :
    ∃ order : List Nat, order.Perm ((unobserved factors evidence).erase v) ∧
      n.belief evidence v = n.beliefInOrder evidence v order := by
  unfold belief beliefInOrder
  cases hget : Arrival.get? evidence v with
  | some state =>
      obtain ⟨order, horder, hrun⟩ := partition_eq_inOrder hn hevidence
      have houtside : v ∉ unobserved factors evidence := by
        simp [mem_unobserved, hget]
      refine ⟨order, by rwa [List.erase_of_not_mem houtside], ?_⟩
      dsimp only
      rw [hrun]
  | none =>
      obtain ⟨order, horder, hrun⟩ := exists_order_eliminate hn hevidence (some v)
      refine ⟨order, ?_, ?_⟩
      · rw [(unobserved_nodup factors evidence).erase_eq_filter]
        refine horder.trans (List.Perm.of_eq (List.filter_congr ?_))
        intro u _
        by_cases huv : u = v <;> simp [huv]
      · rw [← hrun]
        rfl

end TableNetwork

/-! ## The answers of a network -/

open TableNetwork in
/-- Whatever order the variables are eliminated in, the belief of a variable is its share of the
weight of the evidence, and only evidence without positive weight or a table too large for the limit
of the options prevents an answer.  The greedy order of a network is one of the orders. -/
theorem ExactNetwork.belief_exact {label : String} {options : SolverOptions ℚ}
    {net : ExactNetwork ℚ} (hcard : ∀ v, 0 < card v) (hfactors : Consistent card factors)
    (hnet : ExactNetwork.ofFactors label options factors = .ok net)
    (hevidence : evidence.Below card) :
    (AnswersWith options.maxTableEntries (evidenceWeight card factors evidence)
      (fun _ => 0 < evidenceWeight card factors evidence)
      { net with evidence := evidence }.propagate) ∧
    ∀ v ∈ variablesOf factors,
      ExactBelief options.maxTableEntries card factors evidence v
        (net.model.belief evidence v) ∧
      (∃ order : List Nat, order.Perm ((unobserved factors evidence).erase v) ∧
        net.model.belief evidence v = net.model.beliefInOrder evidence v order) ∧
      (∀ order : List Nat, order.Perm ((unobserved factors evidence).erase v) →
        ExactBelief options.maxTableEntries card factors evidence v
          (net.model.beliefInOrder evidence v order)) := by
  obtain ⟨hholds, hlimit⟩ : net.model.Holds card factors ∧
      net.model.limit = options.maxTableEntries := by
    obtain ⟨model, hmodel, hnet⟩ := bind_eq_ok_iff.mp hnet
    cases hnet
    exact ofFactors_holds hfactors hmodel
  rw [← hlimit]
  have hbelief : ∀ v ∈ variablesOf factors, ∀ order : List Nat,
      order.Perm ((unobserved factors evidence).erase v) →
      ExactBelief net.model.limit card factors evidence v
        (net.model.beliefInOrder evidence v order) :=
    fun v hv order horder => beliefInOrder_spec hcard hholds hevidence hv horder
  constructor
  · obtain ⟨order, horder, hgreedy⟩ := partition_eq_inOrder hholds hevidence
    unfold propagate
    rw [hgreedy]
    apply (partitionInOrder_spec hcard hholds hevidence horder).map
    rintro total ⟨rfl, hpositive⟩
    exact hpositive
  · intro v hv
    obtain ⟨order, horder, hgreedy⟩ := belief_eq_inOrder hholds hevidence v
    refine ⟨?_, ⟨order, horder, hgreedy⟩, hbelief v hv⟩
    rw [hgreedy]
    exact hbelief v hv order horder

def coinFactors : List (Factor Nat ℚ) :=
  [⟨[0], [2], [(0, 1 / 4), (1, 3 / 4)]⟩, ⟨[0, 1], [2, 2], [(0, 1), (3, 1)]⟩]

theorem coin_belief_exact :
    ∃ net : ExactNetwork ℚ,
      ExactNetwork.ofFactors "coin" SolverOptions.default coinFactors = .ok net ∧
      TableNetwork.ExactBelief (SolverOptions.default : SolverOptions ℚ).maxTableEntries
        (fun _ => 2) coinFactors [(1, 1)] 0 (net.model.belief [(1, 1)] 0) := by
  refine ⟨_, rfl, ?_⟩
  have hfactors : Consistent (fun _ => 2) coinFactors := by
    unfold Consistent coinFactors
    decide
  have hevidence : Evidence.Below (fun _ => 2) [(1, 1)] := by
    unfold Evidence.Below
    decide
  have hexact := ExactNetwork.belief_exact (fun _ => Nat.two_pos) hfactors
    (rfl : ExactNetwork.ofFactors "coin" SolverOptions.default coinFactors = .ok _) hevidence
  exact (hexact.2 0 (mem_variablesOf.mpr ⟨_, List.mem_cons_self, List.mem_cons_self⟩)).1

end DerivationBelief

import DerivationBelief.DistributionCombining
import DerivationBelief.Proofs.WeighedValues
import Mathlib.Tactic

/-!
# Combined distributions

The combined values of two distributions weigh as much as the pairs that they come from.  Each slot
holds the values of an interval that is open below and closed above, so the mean of a slot that
weighs something lies in the interval, and the means of the slots are in strictly increasing order.
Nothing is lost when a slot is replaced by its mean: the weights add up to one and the mean of the
whole is kept.
-/

namespace DerivationBelief.Distribution

/-! ## Slots -/

theorem clampUnit_of_unit {x : ℚ} (hx : 0 ≤ x ∧ x ≤ 1) : Scalar.clampUnit x = x := by
  unfold Scalar.clampUnit
  rw [if_neg, if_neg]
  · exact mt of_decide_eq_true hx.2.not_gt
  · exact mt of_decide_eq_true hx.1.not_gt

theorem slotWidth_eq : (slotWidth : ℚ) = 1 / 64 :=
  rfl

theorem slotOf_lt (x : ℚ) : slotOf x < slotCount + 1 :=
  Nat.lt_succ_of_le (min_le_right _ _)

/-- The values of slot `k` are above `k - 1` and up to `k` widths. -/
theorem slotOf_bounds {x : ℚ} (hx : 0 ≤ x ∧ x ≤ 1) :
    ((slotOf x : ℚ) - 1) / 64 < x ∧ x ≤ slotOf x / 64 := by
  have hscaled : x / slotWidth = x * 64 := by
    rw [slotWidth_eq]
    ring
  have hnonneg : 0 ≤ ⌈x * 64⌉ := Int.ceil_nonneg (by linarith [hx.1])
  have hle : ⌈x * 64⌉ ≤ 64 := Int.ceil_le.mpr (by push_cast; linarith [hx.2])
  have hslot : (slotOf x : ℤ) = ⌈x * 64⌉ := by
    have hceiling : slotOf x = min ⌈x * 64⌉.toNat slotCount := by
      unfold slotOf
      rw [hscaled]
      rfl
    rw [hceiling, min_eq_left (by unfold slotCount; omega), Int.toNat_of_nonneg hnonneg]
  have hcast : (slotOf x : ℚ) = ⌈x * 64⌉ := by exact_mod_cast hslot
  obtain ⟨hlow, hhigh⟩ := Int.ceil_eq_iff.mp (rfl : ⌈x * 64⌉ = ⌈x * 64⌉)
  rw [hcast]
  constructor <;> linarith

/-! ## Means of weighted values -/

section Means

variable {members : List (Share ℚ)} {bound : ℚ} (hnonneg : ∀ share ∈ members, 0 ≤ share.weight)
  (hpositive : 0 < (members.map Share.weight).sum)

include hnonneg hpositive

theorem lt_mean (hbound : ∀ share ∈ members, bound < share.value) :
    bound < (members.map (fun share => share.value * share.weight)).sum /
      (members.map Share.weight).sum := by
  have hsome : ∃ share ∈ members, 0 < share.weight := by
    by_contra hnone
    push Not at hnone
    have hzero : ∀ share ∈ members, share.weight = 0 :=
      fun share hshare => le_antisymm (hnone share hshare) (hnonneg share hshare)
    rw [List.sum_eq_zero (List.forall_mem_map.mpr hzero)] at hpositive
    exact lt_irrefl 0 hpositive
  rw [lt_div_iff₀ hpositive, ← List.sum_map_mul_left]
  apply List.sum_lt_sum
  · intro share hshare
    exact mul_le_mul_of_nonneg_right (hbound share hshare).le (hnonneg share hshare)
  · obtain ⟨share, hshare, hweight⟩ := hsome
    exact ⟨share, hshare, mul_lt_mul_of_pos_right (hbound share hshare) hweight⟩

theorem le_mean (hbound : ∀ share ∈ members, bound ≤ share.value) :
    bound ≤ (members.map (fun share => share.value * share.weight)).sum /
      (members.map Share.weight).sum := by
  rw [le_div_iff₀ hpositive, ← List.sum_map_mul_left]
  apply List.sum_le_sum
  intro share hshare
  exact mul_le_mul_of_nonneg_right (hbound share hshare) (hnonneg share hshare)

theorem mean_le (hbound : ∀ share ∈ members, share.value ≤ bound) :
    (members.map (fun share => share.value * share.weight)).sum /
      (members.map Share.weight).sum ≤ bound := by
  rw [div_le_iff₀ hpositive, ← List.sum_map_mul_left]
  apply List.sum_le_sum
  intro share hshare
  exact mul_le_mul_of_nonneg_right (hbound share hshare) (hnonneg share hshare)

end Means

/-! ## What a slot holds -/

def slotMembers (all : List (Share ℚ)) (slot : Nat) : List (Share ℚ) :=
  all.filter (fun share => slotOf share.value = slot)

def slotWeight (all : List (Share ℚ)) (slot : Nat) : ℚ :=
  ((slotMembers all slot).map Share.weight).sum

def slotMass (all : List (Share ℚ)) (slot : Nat) : ℚ :=
  ((slotMembers all slot).map (fun share => share.value * share.weight)).sum

def slotMean (all : List (Share ℚ)) (slot : Nat) : ℚ :=
  slotMass all slot / slotWeight all slot

/-- The slots that weigh something. -/
def usedSlots (all : List (Share ℚ)) : List Nat :=
  (List.range (slotCount + 1)).filter (fun slot => slotWeight all slot ≠ 0)

theorem slotMean?_eq (all : List (Share ℚ)) (slot : Nat) :
    slotMean? all slot =
      if slotWeight all slot = 0 then none
      else some (Scalar.clampUnit (slotMass all slot / slotWeight all slot), slotWeight all slot) := by
  have hfold : ∀ (f : Share ℚ → ℚ),
      (slotMembers all slot).foldl (fun acc share => acc + f share) 0 =
        ((slotMembers all slot).map f).sum := by
    intro f
    rw [List.sum_eq_foldl, List.foldl_map]
  have hmean : slotMean? all slot =
      let mass := (slotMembers all slot).foldl (fun acc share => acc + share.value * share.weight) 0
      let weight := (slotMembers all slot).foldl (fun acc share => acc + share.weight) 0
      if weight == 0 then none else some (Scalar.clampUnit (mass / weight), weight) := rfl
  rw [hmean]
  simp only [hfold, beq_iff_eq]
  rfl

theorem slotMean?_perm {all others : List (Share ℚ)} (hperm : all.Perm others) (slot : Nat) :
    slotMean? all slot = slotMean? others slot := by
  have hmembers : (slotMembers all slot).Perm (slotMembers others slot) := hperm.filter _
  have hweight : slotWeight all slot = slotWeight others slot := (hmembers.map _).sum_eq
  have hmass : slotMass all slot = slotMass others slot := (hmembers.map _).sum_eq
  rw [slotMean?_eq, slotMean?_eq, hweight, hmass]

/-- The slots share out the values: what they hold adds up to all. -/
theorem sum_slots (all : List (Share ℚ)) (f : Share ℚ → ℚ) :
    ((List.range (slotCount + 1)).map (fun slot => ((slotMembers all slot).map f).sum)).sum =
      (all.map f).sum := by
  unfold slotMembers
  simp only [← sum_map_ite]
  rw [sum_map_range, ← sum_map_finset_sum]
  congr 1
  apply List.map_congr_left
  intro share _
  rw [Finset.sum_ite_eq, if_pos (Finset.mem_range.mpr (slotOf_lt share.value))]

/-- Slots that weigh nothing add nothing. -/
theorem sum_usedSlots {all : List (Share ℚ)} {f : Nat → ℚ}
    (hf : ∀ slot, slotWeight all slot = 0 → f slot = 0) :
    ((usedSlots all).map f).sum = ((List.range (slotCount + 1)).map f).sum := by
  unfold usedSlots
  rw [← sum_map_ite]
  congr 1
  apply List.map_congr_left
  intro slot _
  by_cases hweight : slotWeight all slot = 0
  · rw [if_neg (not_not.mpr hweight), hf slot hweight]
  · rw [if_pos hweight]

/-- Values of the unit interval with weights that add up to one. -/
structure Weighted (all : List (Share ℚ)) : Prop where
  unit : ∀ share ∈ all, 0 ≤ share.value ∧ share.value ≤ 1
  nonneg : ∀ share ∈ all, 0 ≤ share.weight
  total : (all.map Share.weight).sum = 1

section Slots

variable {all : List (Share ℚ)} (hall : Weighted all)

include hall

theorem Weighted.slotWeight_nonneg (slot : Nat) : 0 ≤ slotWeight all slot := by
  apply List.sum_nonneg
  rw [List.forall_mem_map]
  exact fun share hshare => hall.nonneg share (List.mem_of_mem_filter hshare)

/-- A slot that weighs nothing has only members that weigh nothing. -/
theorem Weighted.slotMass_eq_zero {slot : Nat} (hweight : slotWeight all slot = 0) :
    slotMass all slot = 0 := by
  have hmembers : ∀ share ∈ slotMembers all slot, 0 ≤ share.weight :=
    fun share hshare => hall.nonneg share (List.mem_of_mem_filter hshare)
  apply List.sum_eq_zero
  rw [List.forall_mem_map]
  intro share hshare
  have hle : share.weight ≤ slotWeight all slot :=
    List.single_le_sum (List.forall_mem_map.mpr hmembers) _ (List.mem_map_of_mem hshare)
  rw [le_antisymm (hweight ▸ hle) (hmembers share hshare), mul_zero]

theorem Weighted.slotWeight_pos {slot : Nat} (hused : slot ∈ usedSlots all) :
    0 < slotWeight all slot :=
  lt_of_le_of_ne (hall.slotWeight_nonneg slot)
    (Ne.symm (of_decide_eq_true (List.mem_filter.mp hused).2))

/-- The mean of a slot that weighs something lies where the values of the slot do. -/
theorem Weighted.slotMean_bounds {slot : Nat} (hused : slot ∈ usedSlots all) :
    (((slot : ℚ) - 1) / 64 < slotMean all slot ∧ slotMean all slot ≤ slot / 64) ∧
      0 ≤ slotMean all slot ∧ slotMean all slot ≤ 1 := by
  have hpositive := hall.slotWeight_pos hused
  have hmem : ∀ share ∈ slotMembers all slot, share ∈ all := fun _ => List.mem_of_mem_filter
  have hnonneg := fun share hshare => hall.nonneg share (hmem share hshare)
  have hunit := fun share hshare => hall.unit share (hmem share hshare)
  have hbounds : ∀ share ∈ slotMembers all slot,
      ((slot : ℚ) - 1) / 64 < share.value ∧ share.value ≤ slot / 64 := by
    intro share hshare
    rw [← of_decide_eq_true (List.mem_filter.mp hshare).2]
    exact slotOf_bounds (hunit share hshare)
  refine ⟨⟨?_, ?_⟩, ?_, ?_⟩
  · exact lt_mean hnonneg hpositive (fun share hshare => (hbounds share hshare).1)
  · exact mean_le hnonneg hpositive (fun share hshare => (hbounds share hshare).2)
  · exact le_mean hnonneg hpositive (fun share hshare => (hunit share hshare).1)
  · exact mean_le hnonneg hpositive (fun share hshare => (hunit share hshare).2)

/-- The means of the slots follow one another as the slots do. -/
theorem Weighted.slotMeans_increasing :
    ((usedSlots all).map (slotMean all)).Pairwise (· < ·) := by
  rw [List.pairwise_map]
  have hslots : (usedSlots all).Pairwise (· < ·) := List.pairwise_lt_range.filter _
  refine hslots.imp_of_mem ?_
  intro slot later hslot hlater hlt
  have hhigh := (hall.slotMean_bounds hslot).1.2
  have hlow := (hall.slotMean_bounds hlater).1.1
  have hstep : (slot : ℚ) + 1 ≤ later := by exact_mod_cast hlt
  linarith

theorem Weighted.slotMeans :
    (List.range (slotCount + 1)).filterMap (slotMean? all) =
      (usedSlots all).map (fun slot => (slotMean all slot, slotWeight all slot)) := by
  unfold usedSlots
  rw [← List.filterMap_eq_map, List.filterMap_filter]
  apply List.filterMap_congr
  intro slot hslot
  rw [slotMean?_eq]
  by_cases hweight : slotWeight all slot = 0
  · simp [hweight]
  · have hused : slot ∈ usedSlots all := by
      rw [usedSlots, List.mem_filter]
      exact ⟨hslot, decide_eq_true hweight⟩
    have hmean := clampUnit_of_unit (hall.slotMean_bounds hused).2
    rw [slotMean] at hmean
    simp [hweight, hmean, slotMean]

theorem Weighted.sum_slotWeight : ((usedSlots all).map (slotWeight all)).sum = 1 := by
  rw [sum_usedSlots (fun _ hweight => hweight), ← hall.total]
  exact sum_slots all Share.weight

theorem Weighted.sum_slotMass :
    ((usedSlots all).map (fun slot => slotMean all slot * slotWeight all slot)).sum =
      (all.map (fun share => share.value * share.weight)).sum := by
  have hmass : (usedSlots all).map (fun slot => slotMean all slot * slotWeight all slot) =
      (usedSlots all).map (slotMass all) := by
    apply List.map_congr_left
    intro slot hslot
    exact div_mul_cancel₀ _ (hall.slotWeight_pos hslot).ne'
  rw [hmass, sum_usedSlots (fun _ => hall.slotMass_eq_zero)]
  exact sum_slots all _

end Slots

/-! ## Distributions with few values -/

/-- A proper distribution with no more values than there are slots, none of them in vain. -/
structure Compact (d : Distribution ℚ) : Prop extends d.Ordered where
  positive : ∀ p ∈ d.probabilities, 0 < p
  count_le : d.supports.length ≤ slotCount + 1

/-- The means of the slots with what the slots weigh. -/
def ofSlots (all : List (Share ℚ)) : Distribution ℚ :=
  ⟨(usedSlots all).map (slotMean all), (usedSlots all).map (slotWeight all)⟩

theorem Weighted.ofSlots_compact {all : List (Share ℚ)} (hall : Weighted all) :
    (ofSlots all).Compact := by
  have hpositive : ∀ p ∈ (ofSlots all).probabilities, 0 < p :=
    List.forall_mem_map.mpr (fun slot hslot => hall.slotWeight_pos hslot)
  constructor
  case toOrdered =>
    refine ⟨⟨by simp [ofSlots], ?_, fun p hp => (hpositive p hp).le, hall.sum_slotWeight⟩,
      hall.slotMeans_increasing⟩
    exact List.forall_mem_map.mpr (fun slot hslot => (hall.slotMean_bounds hslot).2)
  case positive => exact hpositive
  case count_le =>
    have hle : (usedSlots all).length ≤ (List.range (slotCount + 1)).length :=
      List.length_filter_le _ _
    simpa [ofSlots] using hle

theorem Weighted.ofSlots_mean {all : List (Share ℚ)} (hall : Weighted all) :
    (ofSlots all).mean = (all.map (fun share => share.value * share.weight)).sum := by
  rw [← hall.sum_slotMass, mean, Scalar.sum_eq, entries, ofSlots, List.zip_map', List.map_map]
  rfl

theorem Weighted.combineBoth_eq {combined : ℚ → ℚ → ℚ} {left right : Distribution ℚ}
    (hall : Weighted (shares combined left right)) :
    combineBoth combined left right = some (ofSlots (shares combined left right)) := by
  unfold combineBoth
  dsimp only
  rw [hall.slotMeans, Scalar.sum_eq, List.map_map, List.map_map, List.map_map]
  have htotal : ((usedSlots (shares combined left right)).map
      (Prod.snd ∘ fun slot => (slotMean (shares combined left right) slot,
        slotWeight (shares combined left right) slot))).sum = 1 := hall.sum_slotWeight
  rw [htotal, if_pos (by decide)]
  simp [ofSlots, Function.comp_def]

/-! ## Pairs of values -/

theorem WellFormed.entry {d : Distribution ℚ} (hd : d.WellFormed) {entry : ℚ × ℚ}
    (hentry : entry ∈ d.entries) : (0 ≤ entry.1 ∧ entry.1 ≤ 1) ∧ 0 ≤ entry.2 :=
  ⟨hd.unit _ (List.of_mem_zip hentry).1, hd.nonneg _ (List.of_mem_zip hentry).2⟩

/-- The mean of an affine image is the image of the mean. -/
theorem WellFormed.affine_mean {d : Distribution ℚ} (hd : d.WellFormed) (constant slope : ℚ) :
    (d.entries.map (fun entry => (constant + slope * entry.1) * entry.2)).sum =
      constant + slope * d.mean := by
  have htotal : (d.entries.map Prod.snd).sum = 1 := by
    rw [entries, List.map_snd_zip hd.length_eq.ge, hd.total]
  simp only [add_mul, mul_assoc]
  rw [List.sum_map_add, List.sum_map_mul_left, List.sum_map_mul_left, htotal, mul_one, mean,
    Scalar.sum_eq]

/-- Operations on probabilities that are affine in each of them and treat both alike. -/
structure Mixing (combined : ℚ → ℚ → ℚ) : Prop where
  unit : ∀ p q, 0 ≤ p ∧ p ≤ 1 → 0 ≤ q ∧ q ≤ 1 → 0 ≤ combined p q ∧ combined p q ≤ 1
  affine : ∃ constant slope product, ∀ p q,
    combined p q = constant + slope * (p + q) + product * (p * q)

theorem mixing_both : Mixing (fun p q => p * q) where
  unit := fun _ _ hp hq => ⟨mul_nonneg hp.1 hq.1, mul_le_one₀ hp.2 hq.1 hq.2⟩
  affine := ⟨0, 0, 1, fun p q => by ring⟩

theorem mixing_either : Mixing (fun p q => 1 - (1 - p) * (1 - q)) where
  unit := by
    rintro p q ⟨hp, hpHigh⟩ ⟨hq, hqHigh⟩
    constructor <;> nlinarith
  affine := ⟨0, 1, -1, fun p q => by ring⟩

theorem flatMap_map_swap {β γ δ : Type} (items : List β) (others : List γ) (f : β → γ → δ) :
    (items.flatMap (fun b => others.map (f b))).Perm
      (others.flatMap (fun c => items.map (fun b => f b c))) := by
  rw [← Multiset.coe_eq_coe, ← Multiset.coe_bind, ← Multiset.coe_bind]
  simp only [← Multiset.map_coe]
  exact Multiset.bind_map_comm _ _

section Pairs

variable {combined : ℚ → ℚ → ℚ} (hmixing : Mixing combined) {left right : Distribution ℚ}
  (hleft : left.WellFormed) (hright : right.WellFormed)

include hmixing hleft hright

/-- Nothing is clamped. -/
theorem Mixing.shares_eq :
    shares combined left right = left.entries.flatMap (fun p =>
      right.entries.map (fun q => ⟨combined p.1 q.1, p.2 * q.2⟩)) := by
  unfold shares
  apply List.flatMap_congr
  intro p hp
  apply List.map_congr_left
  intro q hq
  rw [clampUnit_of_unit (hmixing.unit _ _ (hleft.entry hp).1 (hright.entry hq).1)]

theorem Mixing.sum_shares (f : Share ℚ → ℚ) :
    ((shares combined left right).map f).sum =
      (left.entries.map (fun p =>
        (right.entries.map (fun q => f ⟨combined p.1 q.1, p.2 * q.2⟩)).sum)).sum := by
  rw [hmixing.shares_eq hleft hright, List.map_flatMap, List.flatMap, List.sum_flatten,
    List.map_map]
  simp only [Function.comp_def, List.map_map]

theorem Mixing.weighted : Weighted (shares combined left right) := by
  have hshare : ∀ share ∈ shares combined left right,
      ∃ p ∈ left.entries, ∃ q ∈ right.entries, share = ⟨combined p.1 q.1, p.2 * q.2⟩ := by
    rw [hmixing.shares_eq hleft hright]
    intro share hmem
    obtain ⟨p, hp, hmem⟩ := List.mem_flatMap.mp hmem
    obtain ⟨q, hq, rfl⟩ := List.mem_map.mp hmem
    exact ⟨p, hp, q, hq, rfl⟩
  constructor
  case unit =>
    intro share hmem
    obtain ⟨p, hp, q, hq, rfl⟩ := hshare share hmem
    exact hmixing.unit _ _ (hleft.entry hp).1 (hright.entry hq).1
  case nonneg =>
    intro share hmem
    obtain ⟨p, hp, q, hq, rfl⟩ := hshare share hmem
    exact mul_nonneg (hleft.entry hp).2 (hright.entry hq).2
  case total =>
    have hleftSum := hleft.affine_mean 1 0
    have hrightSum := hright.affine_mean 1 0
    simp only [zero_mul, add_zero, one_mul] at hleftSum hrightSum
    rw [hmixing.sum_shares hleft hright]
    simp only [List.sum_map_mul_left, hrightSum, mul_one, hleftSum]

/-- The mean of the combined values is the combination of the means. -/
theorem Mixing.mean_shares :
    ((shares combined left right).map (fun share => share.value * share.weight)).sum =
      combined left.mean right.mean := by
  obtain ⟨constant, slope, product, haffine⟩ := hmixing.affine
  have hinner : ∀ p : ℚ × ℚ,
      (right.entries.map (fun q => combined p.1 q.1 * (p.2 * q.2))).sum =
        (constant + slope * right.mean + (slope + product * right.mean) * p.1) * p.2 := by
    intro p
    have hmean := hright.affine_mean (constant + slope * p.1) (slope + product * p.1)
    have hterms : right.entries.map (fun q => combined p.1 q.1 * (p.2 * q.2)) =
        right.entries.map (fun q =>
          p.2 * ((constant + slope * p.1 + (slope + product * p.1) * q.1) * q.2)) := by
      apply List.map_congr_left
      intro q _
      rw [haffine]
      ring
    rw [hterms, List.sum_map_mul_left, hmean]
    ring
  rw [hmixing.sum_shares hleft hright]
  simp only [hinner]
  rw [hleft.affine_mean, haffine]
  ring

/-- Both orders have the same pairs. -/
theorem Mixing.shares_swap :
    (shares combined right left).Perm (shares combined left right) := by
  obtain ⟨constant, slope, product, haffine⟩ := hmixing.affine
  have hshare : ∀ p q : ℚ × ℚ,
      (⟨combined q.1 p.1, q.2 * p.2⟩ : Share ℚ) = ⟨combined p.1 q.1, p.2 * q.2⟩ := by
    intro p q
    rw [haffine, haffine, add_comm q.1, mul_comm q.1, mul_comm q.2]
  rw [hmixing.shares_eq hright hleft, hmixing.shares_eq hleft hright]
  apply (flatMap_map_swap right.entries left.entries _).trans
  simp only [hshare]
  exact List.Perm.refl _

theorem Mixing.combineBoth_swap :
    combineBoth combined right left = combineBoth combined left right := by
  have hmeans : slotMean? (shares combined right left) = slotMean? (shares combined left right) :=
    funext (slotMean?_perm (hmixing.shares_swap hleft hright))
  unfold combineBoth
  dsimp only
  rw [hmeans]

theorem Mixing.combined_spec :
    ∃ c, combineBoth combined left right = some c ∧ c.Compact ∧
      c.mean = combined left.mean right.mean ∧ combineBoth combined right left = some c := by
  have hall := hmixing.weighted hleft hright
  refine ⟨ofSlots (shares combined left right), hall.combineBoth_eq, hall.ofSlots_compact, ?_, ?_⟩
  · rw [hall.ofSlots_mean, hmixing.mean_shares hleft hright]
  · rw [hmixing.combineBoth_swap hleft hright, hall.combineBoth_eq]

end Pairs

/-- Two distributions combine to one with few values and the combined mean, in either order. -/
theorem combining_keeps_means {left right : Distribution ℚ} (hleft : left.WellFormed)
    (hright : right.WellFormed) :
    (∃ both, conjoin (some left) (some right) = some both ∧ both.Compact ∧
        both.mean = left.mean * right.mean ∧ conjoin (some right) (some left) = some both) ∧
      ∃ either, disjoin (some left) (some right) = some either ∧ either.Compact ∧
        either.mean = 1 - (1 - left.mean) * (1 - right.mean) ∧
        disjoin (some right) (some left) = some either :=
  ⟨mixing_both.combined_spec hleft hright, mixing_either.combined_spec hleft hright⟩

/-- A value that weighs nothing, values on the bounds, and two pairs in one slot. -/
theorem lampOdds_combined :
    let left : Distribution ℚ := ⟨[0, 1 / 2, 1], [0, 1 / 2, 1 / 2]⟩
    let right : Distribution ℚ := ⟨[1 / 2, 1], [1 / 2, 1 / 2]⟩
    left.WellFormed ∧ right.WellFormed ∧
      ∃ both, conjoin (some left) (some right) = some both ∧ both.Compact ∧
        both.mean = 9 / 16 ∧ both.supports = [1 / 4, 1 / 2, 1] ∧
        both.probabilities = [1 / 4, 1 / 2, 1 / 4] := by
  intro left right
  have hleft : left.WellFormed :=
    ⟨rfl, by decide +kernel, by decide +kernel, by decide +kernel⟩
  have hright : right.WellFormed :=
    ⟨rfl, by decide +kernel, by decide +kernel, by decide +kernel⟩
  obtain ⟨⟨both, hboth, hcompact, hmean, _⟩, _⟩ := combining_keeps_means hleft hright
  have hlists : (conjoin (some left) (some right)).map (fun d => (d.supports, d.probabilities)) =
      some ([1 / 4, 1 / 2, 1], [1 / 4, 1 / 2, 1 / 4]) := by decide +kernel
  rw [hboth, Option.map_some, Option.some.injEq, Prod.mk.injEq] at hlists
  refine ⟨hleft, hright, both, hboth, hcompact, ?_, hlists.1, hlists.2⟩
  rw [hmean]
  decide +kernel

end DerivationBelief.Distribution

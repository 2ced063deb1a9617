import DerivationBelief.Distribution
import DerivationBelief.Outcome
import DerivationBelief.Proofs.ArrivalLookups
import DerivationBelief.Proofs.ExactFractions
import DerivationBelief.Proofs.FaultyRuns
import DerivationBelief.Proofs.GenerativeModel
import DerivationBelief.Proofs.StableOrder
import Mathlib.Data.List.Sort
import Mathlib.Tactic

/-!
# Distributions from values with weights

The values are sorted, equal neighbours are merged into one with the sum of their weights, and the
weights are divided by their total.  Sorting brings all equal values together, so merging keeps the
weight of every value, and the distribution depends only on which weights are given with which
values.

Only merged weights are checked for their sign.  A negative weight is therefore accepted when the
other weights of its value make up for it; reweighing, which merges nothing, accepts none.
-/

namespace DerivationBelief

namespace Distribution

/-- Strictly increasing values of the unit interval, with probabilities that add up to one. -/
structure Ordered (d : Distribution ℚ) : Prop extends d.WellFormed where
  increasing : d.supports.Pairwise (· < ·)

/-! ## The weight of a value -/

/-- The total weight that is given with a value. -/
def weightGiven (entries : List (ℚ × ℚ)) (x : ℚ) : ℚ :=
  (Arrival.valuesOf entries x).sum

@[simp] theorem weightGiven_nil (x : ℚ) : weightGiven [] x = 0 :=
  rfl

@[simp] theorem weightGiven_cons (entry : ℚ × ℚ) (entries : List (ℚ × ℚ)) (x : ℚ) :
    weightGiven (entry :: entries) x =
      (if entry.1 = x then entry.2 else 0) + weightGiven entries x := by
  unfold weightGiven Arrival.valuesOf
  by_cases hx : entry.1 = x <;> simp [hx]

@[simp] theorem weightGiven_append (entries more : List (ℚ × ℚ)) (x : ℚ) :
    weightGiven (entries ++ more) x = weightGiven entries x + weightGiven more x := by
  simp [weightGiven, Arrival.valuesOf]

theorem weightGiven_perm {entries others : List (ℚ × ℚ)} (hperm : entries.Perm others) (x : ℚ) :
    weightGiven entries x = weightGiven others x :=
  ((hperm.filter _).map _).sum_eq

theorem weightGiven_of_not_mem {entries : List (ℚ × ℚ)} {x : ℚ}
    (hx : x ∉ entries.map Prod.fst) : weightGiven entries x = 0 := by
  induction entries with
  | nil => rfl
  | cons entry entries ih =>
      rw [List.map_cons, List.mem_cons, not_or] at hx
      rw [weightGiven_cons, if_neg (Ne.symm hx.1), ih hx.2, zero_add]

theorem weightGiven_of_mem {entries : List (ℚ × ℚ)} (hkeys : (entries.map Prod.fst).Nodup)
    {entry : ℚ × ℚ} (hentry : entry ∈ entries) : weightGiven entries entry.1 = entry.2 := by
  induction entries with
  | nil => cases hentry
  | cons first entries ih =>
      rw [List.map_cons, List.nodup_cons] at hkeys
      rw [weightGiven_cons]
      rcases List.mem_cons.mp hentry with rfl | hrest
      · rw [if_pos rfl, weightGiven_of_not_mem hkeys.1, add_zero]
      · have hne : first.1 ≠ entry.1 := by
          intro heq
          exact hkeys.1 (heq ▸ List.mem_map_of_mem hrest)
        rw [if_neg hne, ih hkeys.2 hrest, zero_add]

/-- The probability of a value is the weight that the entries give it. -/
theorem probability_eq_weightGiven {d : Distribution ℚ}
    (hlength : d.supports.length = d.probabilities.length) (hnodup : d.supports.Nodup) (x : ℚ) :
    d.probability x = weightGiven d.entries x := by
  obtain ⟨supports, probabilities⟩ := d
  unfold probability entries
  dsimp only at *
  induction supports generalizing probabilities with
  | nil => rfl
  | cons s supports ih =>
      cases probabilities with
      | nil => simp at hlength
      | cons p probabilities =>
          rw [List.nodup_cons] at hnodup
          have hrest := ih probabilities (Nat.succ_injective hlength) hnodup.2
          rw [List.zip_cons_cons, weightGiven_cons, ← hrest, List.findIdx?_cons]
          by_cases hs : s = x
          · have habsent : supports.findIdx? (· == x) = none := by
              rw [List.findIdx?_eq_none_iff]
              rintro y hy
              exact beq_false_of_ne (fun heq => hnodup.1 (hs.trans heq.symm ▸ hy))
            simp [hs, habsent]
          · simp only [hs, beq_iff_eq, if_false, zero_add]
            cases supports.findIdx? (· == x) with
            | none => rfl
            | some place => rfl

/-! ## Merging -/

/-- Merged entries are in strictly increasing order, and they have the values of the given ones,
the weight of each value and the weight in all. -/
structure Merges (given merged : List (ℚ × ℚ)) : Prop where
  increasing : (merged.map Prod.fst).Pairwise (· < ·)
  mem_iff : ∀ x, x ∈ merged.map Prod.fst ↔ x ∈ given.map Prod.fst
  weight_eq : ∀ x, weightGiven merged x = weightGiven given x
  total_eq : (merged.map Prod.snd).sum = (given.map Prod.snd).sum

theorem Merges.nil : Merges [] [] := by
  constructor <;> simp

theorem Merges.of_perm {given others merged : List (ℚ × ℚ)} (hmerges : Merges given merged)
    (hperm : given.Perm others) : Merges others merged where
  increasing := hmerges.increasing
  mem_iff := fun x => (hmerges.mem_iff x).trans (hperm.map _).mem_iff
  weight_eq := fun x => (hmerges.weight_eq x).trans (weightGiven_perm hperm x)
  total_eq := hmerges.total_eq.trans (hperm.map _).sum_eq

theorem mergeNext_concat (front : List (ℚ × ℚ)) (last entry : ℚ × ℚ) :
    mergeNext (front ++ [last]) entry =
      if last.1 = entry.1 then front ++ [(last.1, last.2 + entry.2)]
      else front ++ [last] ++ [entry] := by
  simp [mergeNext]

/-- A value above the earlier ones is added behind them. -/
theorem Merges.add {given merged : List (ℚ × ℚ)} (hmerges : Merges given merged)
    {entry : ℚ × ℚ} (habove : ∀ x ∈ merged.map Prod.fst, x < entry.1) :
    Merges (given ++ [entry]) (merged ++ [entry]) where
  increasing := by
    rw [List.map_append, List.pairwise_append]
    refine ⟨hmerges.increasing, List.pairwise_singleton _ _, ?_⟩
    intro x hx y hy
    rw [List.mem_singleton.mp hy]
    exact habove x hx
  mem_iff := by
    intro x
    rw [List.map_append, List.mem_append, hmerges.mem_iff, List.map_append, List.mem_append]
  weight_eq := by
    intro x
    rw [weightGiven_append, hmerges.weight_eq, weightGiven_append]
  total_eq := by
    rw [List.map_append, List.sum_append, hmerges.total_eq, List.map_append, List.sum_append]

/-- A value that is equal to the last one adds to its weight. -/
theorem Merges.raise {given front : List (ℚ × ℚ)} {last entry : ℚ × ℚ}
    (hmerges : Merges given (front ++ [last])) (hequal : last.1 = entry.1) :
    Merges (given ++ [entry]) (front ++ [(last.1, last.2 + entry.2)]) where
  increasing := by simpa using hmerges.increasing
  mem_iff := by
    intro x
    have hmem := hmerges.mem_iff x
    simp only [List.map_append, List.map_singleton, List.mem_append, List.mem_singleton] at hmem ⊢
    rw [← hmem, ← hequal]
    tauto
  weight_eq := by
    intro x
    rw [weightGiven_append given, ← hmerges.weight_eq]
    by_cases hx : last.1 = x <;> simp [← hequal, hx, add_assoc]
  total_eq := by
    have htotal := hmerges.total_eq
    simp only [List.map_append, List.sum_append] at htotal ⊢
    rw [← htotal]
    simp [add_assoc]

/-- One more entry, with a value that none of the earlier ones exceeds, is merged. -/
theorem Merges.next {given merged : List (ℚ × ℚ)} (hmerges : Merges given merged)
    {entry : ℚ × ℚ} (hlast : ∀ earlier ∈ given, earlier.1 ≤ entry.1) :
    Merges (given ++ [entry]) (mergeNext merged entry) := by
  have hbelow : ∀ x ∈ merged.map Prod.fst, x ≤ entry.1 := by
    intro x hx
    obtain ⟨earlier, hearlier, rfl⟩ := List.mem_map.mp ((hmerges.mem_iff x).mp hx)
    exact hlast earlier hearlier
  rcases List.eq_nil_or_concat merged with rfl | ⟨front, last, rfl⟩
  · exact hmerges.add (fun x hx => absurd hx List.not_mem_nil)
  · rw [List.concat_eq_append] at *
    rw [mergeNext_concat]
    split
    · rename_i hequal
      exact hmerges.raise hequal
    · rename_i hdiffer
      have hlt : last.1 < entry.1 := lt_of_le_of_ne (hbelow last.1 (by simp)) hdiffer
      have hincreasing := hmerges.increasing
      rw [List.map_append, List.pairwise_append] at hincreasing
      apply hmerges.add
      intro x hx
      rw [List.map_append, List.mem_append] at hx
      rcases hx with hfront | hend
      · exact (hincreasing.2.2 x hfront last.1 (by simp)).trans hlt
      · rwa [List.mem_singleton.mp hend]

/-- Merging goes through a sorted list from the front. -/
theorem merges_foldl {sorted : List (ℚ × ℚ)}
    (hsorted : sorted.Pairwise (fun a b => a.1 ≤ b.1)) :
    Merges sorted (sorted.foldl mergeNext []) := by
  induction sorted using List.reverseRecOn with
  | nil => exact Merges.nil
  | append_singleton sorted entry ih =>
      rw [List.pairwise_append] at hsorted
      rw [List.foldl_append, List.foldl_cons, List.foldl_nil]
      apply (ih hsorted.1).next
      intro earlier hearlier
      exact hsorted.2.2 earlier hearlier entry (List.mem_singleton_self entry)

theorem mergeEqual_merges (entries : List (ℚ × ℚ)) : Merges entries (mergeEqual entries) := by
  let before : ℚ × ℚ → ℚ × ℚ → Bool := fun a b => Scalar.sortsBefore a.1 b.1
  have hbefore : ∀ a b, before a b = true ↔ a.1 ≤ b.1 := fun a b => decide_eq_true_iff
  have hsorted : (sortBy before entries).Pairwise (fun a b => a.1 ≤ b.1) := by
    simp only [← hbefore]
    apply pairwise_sortBy
    · intro a b
      simpa only [hbefore] using le_total a.1 b.1
    · intro a b c hab hbc
      exact (hbefore a c).mpr (((hbefore a b).mp hab).trans ((hbefore b c).mp hbc))
  exact (merges_foldl hsorted).of_perm (sortBy_perm before entries)

theorem Merges.keys_nodup {given merged : List (ℚ × ℚ)} (hmerges : Merges given merged) :
    (merged.map Prod.fst).Nodup :=
  hmerges.increasing.imp (fun hlt => ne_of_lt hlt)

theorem Merges.eq_map_weightGiven {given merged : List (ℚ × ℚ)} (hmerges : Merges given merged) :
    merged = (merged.map Prod.fst).map (fun x => (x, weightGiven given x)) := by
  rw [List.map_map]
  conv_lhs => rw [← List.map_id merged]
  apply List.map_congr_left
  intro entry hentry
  have hweight := weightGiven_of_mem hmerges.keys_nodup hentry
  rw [hmerges.weight_eq] at hweight
  exact Prod.ext rfl hweight.symm

/-- Which weights come with which values decides what is merged. -/
theorem mergeEqual_perm {entries others : List (ℚ × ℚ)} (hperm : entries.Perm others) :
    mergeEqual entries = mergeEqual others := by
  have hfirst := mergeEqual_merges entries
  have hsecond := (mergeEqual_merges others).of_perm hperm.symm
  have hkeys : (mergeEqual entries).map Prod.fst = (mergeEqual others).map Prod.fst :=
    hfirst.increasing.eq_of_mem_iff hsecond.increasing
      (fun x => (hfirst.mem_iff x).trans (hsecond.mem_iff x).symm)
  rw [hfirst.eq_map_weightGiven, hkeys, ← hsecond.eq_map_weightGiven]

/-! ## Weights divided by their total -/

theorem normalise_eq_ok_iff {weights normal : List ℚ} :
    normalise weights = .ok normal ↔
      0 < weights.sum ∧ (∀ w ∈ weights, 0 ≤ w) ∧ normal = weights.map (· / weights.sum) := by
  have hsign : (weights.any fun w => Scalar.less w 0 || !Scalar.isFinite w) = true ↔
      ¬ ∀ w ∈ weights, 0 ≤ w := by
    simp [Scalar.less, Scalar.isFinite]
  unfold normalise
  simp only [Scalar.sum_eq, Bool.or_eq_true, Bool.not_eq_true', hsign, ← Bool.not_eq_true,
    Scalar.isPositive_iff]
  by_cases hvalid : 0 < weights.sum ∧ ∀ w ∈ weights, 0 ≤ w
  · rw [if_neg (by tauto), Except.ok.injEq]
    exact ⟨fun heq => ⟨hvalid.1, hvalid.2, heq.symm⟩, fun hnormal => hnormal.2.2.symm⟩
  · rw [if_pos (by tauto)]
    constructor
    · intro hfault
      cases hfault
    · rintro ⟨hpositive, hnonneg, _⟩
      exact absurd ⟨hpositive, hnonneg⟩ hvalid

theorem sum_div_sum {weights : List ℚ} (hpositive : 0 < weights.sum) :
    (weights.map (· / weights.sum)).sum = 1 := by
  simp only [div_eq_mul_inv]
  rw [List.sum_map_mul_right, List.map_id', mul_inv_cancel₀ hpositive.ne']

/-! ## Construction -/

theorem forall_merged_nonneg_iff {given merged : List (ℚ × ℚ)} (hmerges : Merges given merged) :
    (∀ w ∈ merged.map Prod.snd, 0 ≤ w) ↔ ∀ x ∈ given.map Prod.fst, 0 ≤ weightGiven given x := by
  constructor
  · intro hnonneg x hx
    obtain ⟨entry, hentry, rfl⟩ := List.mem_map.mp ((hmerges.mem_iff x).mpr hx)
    rw [← hmerges.weight_eq, weightGiven_of_mem hmerges.keys_nodup hentry]
    exact hnonneg entry.2 (List.mem_map_of_mem hentry)
  · intro hnonneg w hw
    obtain ⟨entry, hentry, rfl⟩ := List.mem_map.mp hw
    rw [← weightGiven_of_mem hmerges.keys_nodup hentry, hmerges.weight_eq]
    exact hnonneg entry.1 ((hmerges.mem_iff entry.1).mp (List.mem_map_of_mem hentry))

/-- A distribution is built from values of the unit interval that have no negative weight after
equal ones have been merged, when their weights do not all vanish. -/
theorem withWeights_eq_ok_iff {values weights : List ℚ} {d : Distribution ℚ} :
    withWeights values weights = .ok d ↔
      values.length = weights.length ∧ (∀ x ∈ values, 0 ≤ x ∧ x ≤ 1) ∧ 0 < weights.sum ∧
        (∀ x ∈ values, 0 ≤ weightGiven (values.zip weights) x) ∧
        d = ⟨(mergeEqual (values.zip weights)).map Prod.fst,
          (mergeEqual (values.zip weights)).map (fun entry => entry.2 / weights.sum)⟩ := by
  unfold withWeights
  by_cases hlength : values.length = weights.length
  case neg => simp [hlength]
  rw [if_neg (not_not.mpr hlength)]
  have hmerges := mergeEqual_merges (values.zip weights)
  have hgiven : (values.zip weights).map Prod.fst = values := List.map_fst_zip hlength.le
  have htotal : ((mergeEqual (values.zip weights)).map Prod.snd).sum = weights.sum := by
    rw [hmerges.total_eq, List.map_snd_zip hlength.ge]
  split
  · rename_i hempty
    rw [List.isEmpty_iff] at hempty
    have hweights : weights = [] := List.length_eq_zero_iff.mp (by rw [← hlength, hempty]; rfl)
    simp [hweights]
  · split
    · rename_i value hfound
      have hvalue := List.find?_some hfound
      rw [Bool.not_eq_true', ← Bool.not_eq_true, Scalar.inUnit_iff] at hvalue
      constructor
      · intro hfault
        cases hfault
      · intro hvalid
        exact absurd (hvalid.2.1 value (List.mem_of_find?_eq_some hfound)) hvalue
    · rename_i hnone
      have hunit : ∀ x ∈ values, 0 ≤ x ∧ x ≤ 1 := by
        intro x hx
        have hinside := List.find?_eq_none.mp hnone x hx
        rwa [Bool.not_eq_true', Bool.not_eq_false, Scalar.inUnit_iff] at hinside
      rw [bind_eq_ok_iff]
      simp only [normalise_eq_ok_iff, forall_merged_nonneg_iff hmerges, hgiven, htotal]
      constructor
      · rintro ⟨normal, ⟨hpositive, hnonneg, rfl⟩, hd⟩
        cases hd
        exact ⟨hlength, hunit, hpositive, hnonneg, by rw [List.map_map]; rfl⟩
      · rintro ⟨_, _, hpositive, hnonneg, rfl⟩
        exact ⟨_, ⟨hpositive, hnonneg, rfl⟩, by rw [List.map_map]; rfl⟩

/-- A distribution over the given values, which gives each of them its share of the weights. -/
structure Weighs (values weights : List ℚ) (d : Distribution ℚ) : Prop extends d.Ordered where
  mem_supports : ∀ x, x ∈ d.supports ↔ x ∈ values
  probability_eq : ∀ x,
    d.probability x = weightGiven (values.zip weights) x / weights.sum

theorem weightGiven_div (entries : List (ℚ × ℚ)) (total x : ℚ) :
    weightGiven (entries.map (fun entry => (entry.1, entry.2 / total))) x =
      weightGiven entries x / total := by
  induction entries with
  | nil => simp
  | cons entry entries ih =>
      rw [List.map_cons, weightGiven_cons, ih, weightGiven_cons, add_div]
      by_cases hx : entry.1 = x <;> simp [hx]

theorem weighs_of_withWeights {values weights : List ℚ} {d : Distribution ℚ}
    (hd : withWeights values weights = .ok d) : Weighs values weights d := by
  obtain ⟨hlength, hunit, hpositive, hnonneg, rfl⟩ := withWeights_eq_ok_iff.mp hd
  have hmerges := mergeEqual_merges (values.zip weights)
  have hgiven : (values.zip weights).map Prod.fst = values := List.map_fst_zip hlength.le
  have htotal : ((mergeEqual (values.zip weights)).map Prod.snd).sum = weights.sum := by
    rw [hmerges.total_eq, List.map_snd_zip hlength.ge]
  have hmem : ∀ x, x ∈ (mergeEqual (values.zip weights)).map Prod.fst ↔ x ∈ values := by
    intro x
    rw [hmerges.mem_iff, hgiven]
  constructor
  case mem_supports => exact hmem
  case probability_eq =>
    intro x
    rw [probability_eq_weightGiven (by simp) hmerges.keys_nodup, ← hmerges.weight_eq,
      ← weightGiven_div]
    congr 1
    exact List.zip_map'.trans rfl
  case toOrdered =>
    refine ⟨⟨by simp, fun x hx => hunit x ((hmem x).mp hx), ?_, ?_⟩, hmerges.increasing⟩
    · intro p hp
      obtain ⟨entry, hentry, rfl⟩ := List.mem_map.mp hp
      have hentryNonneg := (forall_merged_nonneg_iff hmerges).mpr (hgiven.symm ▸ hnonneg) entry.2
        (List.mem_map_of_mem hentry)
      exact div_nonneg hentryNonneg hpositive.le
    · have hsum := sum_div_sum (htotal.symm ▸ hpositive)
      rwa [List.map_map, htotal] at hsum

/-! ## Reweighing in place -/

section Updates

variable {α : Type} [Scalar α]

/-- Reweighing as it proceeds on the distribution that it finds. -/
def reweighing (weights : List α) : ExceptT (DistributionFault α) (StateM (Distribution α)) Unit := do
  let d ← get
  if weights.length ≠ d.supports.length then
    throw (.weightCount d.supports.length weights.length)
  else
    let probabilities ← ExceptT.mk (pure (normalise weights))
    set { d with probabilities }

def update (d : Distribution α) (weights : List α) :
    Outcome (DistributionFault α) Unit (Distribution α) :=
  (reweighing weights).run d

theorem update_eq (d : Distribution α) (weights : List α) :
    d.update weights =
      match d.reweigh weights with
      | .ok next => (.ok (), next)
      | .error fault => (.error fault, d) := by
  have hrun : d.update weights =
      (if weights.length ≠ d.supports.length then
          (throw (.weightCount d.supports.length weights.length) :
            ExceptT (DistributionFault α) (StateM (Distribution α)) Unit)
        else ExceptT.mk (pure (normalise weights)) >>= fun probabilities =>
          set ({ d with probabilities } : Distribution α)).run d := rfl
  rw [hrun]
  unfold reweigh
  split
  · rfl
  · cases normalise weights <;> rfl

end Updates

/-- Weights for the values that a distribution has are taken in their proportions. -/
theorem reweigh_eq_ok_iff {d next : Distribution ℚ} {weights : List ℚ} :
    d.reweigh weights = .ok next ↔
      weights.length = d.supports.length ∧ 0 < weights.sum ∧ (∀ w ∈ weights, 0 ≤ w) ∧
        next = { d with probabilities := weights.map (· / weights.sum) } := by
  unfold reweigh
  by_cases hlength : weights.length = d.supports.length
  · rw [if_neg (not_not.mpr hlength), bind_eq_ok_iff]
    simp only [normalise_eq_ok_iff]
    constructor
    · rintro ⟨normal, ⟨hpositive, hnonneg, rfl⟩, hnext⟩
      cases hnext
      exact ⟨hlength, hpositive, hnonneg, rfl⟩
    · rintro ⟨_, hpositive, hnonneg, rfl⟩
      exact ⟨_, ⟨hpositive, hnonneg, rfl⟩, rfl⟩
  · simp [hlength]

/-! ## Shares -/

/-- Construction gives each value its share of the weights, in whatever order values and weights
come.  Reweighing in place keeps the values and takes the weights in their proportions; when it
fails, nothing has been changed. -/
theorem weights_become_shares :
    (∀ (values weights : List ℚ) (d : Distribution ℚ), withWeights values weights = .ok d →
      Weighs values weights d ∧
        ∀ others otherWeights : List ℚ, others.length = otherWeights.length →
          (others.zip otherWeights).Perm (values.zip weights) →
          withWeights others otherWeights = .ok d) ∧
      ∀ (d : Distribution ℚ) (weights : List ℚ),
        (∀ next, d.update weights = (.ok (), next) →
          next.supports = d.supports ∧ weights.length = d.supports.length ∧
            (∀ p ∈ next.probabilities, 0 ≤ p) ∧ next.probabilities.sum = 1 ∧
            next.probabilities = weights.map (· / weights.sum)) ∧
          ∀ fault next, d.update weights = (.error fault, next) → next = d := by
  constructor
  · intro values weights d hd
    refine ⟨weighs_of_withWeights hd, ?_⟩
    intro others otherWeights hothers hperm
    obtain ⟨hlength, hunit, hpositive, hnonneg, rfl⟩ := withWeights_eq_ok_iff.mp hd
    have hvalues : others.Perm values := by
      have hfirst := hperm.map Prod.fst
      rwa [List.map_fst_zip hothers.le, List.map_fst_zip hlength.le] at hfirst
    have hsum : otherWeights.sum = weights.sum := by
      have hsecond := (hperm.map Prod.snd).sum_eq
      rwa [List.map_snd_zip hothers.ge, List.map_snd_zip hlength.ge] at hsecond
    rw [withWeights_eq_ok_iff, mergeEqual_perm hperm, hsum]
    refine ⟨hothers, fun x hx => hunit x (hvalues.mem_iff.mp hx), hpositive, ?_, rfl⟩
    intro x hx
    rw [weightGiven_perm hperm]
    exact hnonneg x (hvalues.mem_iff.mp hx)
  · intro d weights
    rw [update_eq]
    cases hreweigh : d.reweigh weights with
    | error fault =>
        refine ⟨fun next hnext => (nomatch hnext), ?_⟩
        intro other next hnext
        cases hnext
        rfl
    | ok reweighed =>
        refine ⟨?_, fun fault next hnext => (nomatch hnext)⟩
        intro next hnext
        cases hnext
        obtain ⟨hlength, hpositive, hnonneg, rfl⟩ := reweigh_eq_ok_iff.mp hreweigh
        refine ⟨rfl, hlength, ?_, sum_div_sum hpositive, rfl⟩
        intro p hp
        obtain ⟨w, hw, rfl⟩ := List.mem_map.mp hp
        exact div_nonneg (hnonneg w hw) hpositive.le

/-- Two values, one of them given twice; then three to one, and one weight too few. -/
theorem wetOdds_shares :
    let odds : Distribution ℚ := ⟨[1 / 10, 9 / 10], [1 / 2, 1 / 2]⟩
    let shifted : Distribution ℚ := ⟨[1 / 10, 9 / 10], [3 / 4, 1 / 4]⟩
    (withWeights [9 / 10, 1 / 10, 9 / 10] [1, 2, 1] = .ok odds ∧
      Weighs [9 / 10, 1 / 10, 9 / 10] [1, 2, 1] odds ∧
      withWeights [1 / 10, 9 / 10, 9 / 10] [2, 1, 1] = .ok odds) ∧
      (odds.update [3, 1] = (.ok (), shifted) ∧ shifted.probabilities.sum = 1) ∧
      odds.update [1] = (.error (.weightCount 2 1), odds) := by
  intro odds shifted
  obtain ⟨hbuilt, hupdated⟩ := weights_become_shares
  have hodds : withWeights [9 / 10, 1 / 10, 9 / 10] [1, 2, 1] = .ok odds := by
    rw [withWeights_eq_ok_iff]
    exact ⟨rfl, by decide +kernel, by decide +kernel, by decide +kernel,
      congrArg₂ Distribution.mk (by decide +kernel) (by decide +kernel)⟩
  obtain ⟨hweighs, hpermuted⟩ := hbuilt _ _ odds hodds
  have hreweighed : odds.reweigh [3, 1] = .ok shifted := by
    rw [reweigh_eq_ok_iff]
    exact ⟨rfl, by decide +kernel, by decide +kernel,
      congrArg (Distribution.mk odds.supports) (by decide +kernel)⟩
  have hshifted : odds.update [3, 1] = (.ok (), shifted) := by rw [update_eq, hreweighed]
  have hrefused : odds.update [1] = (.error (.weightCount 2 1), odds) := rfl
  refine ⟨⟨hodds, hweighs, hpermuted [1 / 10, 9 / 10, 9 / 10] [2, 1, 1] rfl ?_⟩,
    ⟨hshifted, ((hupdated odds [3, 1]).1 shifted hshifted).2.2.2.1⟩, ?_⟩
  · exact .swap _ _ _
  · exact hrefused

/-! ## Signs -/

/-- What keeps a distribution from being built: lists of different lengths, a value outside the unit
interval, no weight in all, or a value with a negative weight in all. -/
theorem withWeights_refused_iff {values weights : List ℚ} :
    (∃ fault, withWeights values weights = .error fault) ↔
      values.length ≠ weights.length ∨ (∃ x ∈ values, x < 0 ∨ 1 < x) ∨ weights.sum ≤ 0 ∨
        ∃ x ∈ values, weightGiven (values.zip weights) x < 0 := by
  have hrefused : (∃ fault, withWeights values weights = .error fault) ↔
      ¬ ∃ d, withWeights values weights = .ok d := by
    cases withWeights values weights <;> simp
  rw [hrefused]
  simp only [withWeights_eq_ok_iff, exists_and_left, exists_eq, and_true, not_and_or, not_forall,
    not_le, not_lt, exists_prop, ne_eq]

/-- When no value is given twice, each has one weight, and none of them may be negative. -/
theorem withWeights_refused_of_nodup {values weights : List ℚ} (hnodup : values.Nodup)
    (hnegative : ∃ w ∈ weights, w < 0) : ∃ fault, withWeights values weights = .error fault := by
  rw [withWeights_refused_iff]
  by_cases hlength : values.length = weights.length
  · obtain ⟨w, hw, hsign⟩ := hnegative
    have hkeys : ((values.zip weights).map Prod.fst).Nodup := by
      rwa [List.map_fst_zip hlength.le]
    rw [← List.map_snd_zip hlength.ge] at hw
    obtain ⟨entry, hentry, rfl⟩ := List.mem_map.mp hw
    rw [← weightGiven_of_mem hkeys hentry] at hsign
    exact Or.inr (Or.inr (Or.inr ⟨entry.1, (List.of_mem_zip hentry).1, hsign⟩))
  · exact Or.inl hlength

theorem reweigh_refused {α : Type} [Scalar α] {d : Distribution α} {weights : List α}
    (hlength : weights.length = d.supports.length)
    (hnegative : ∃ w ∈ weights, Scalar.less w 0 = true) :
    d.reweigh weights = .error .zeroMass := by
  obtain ⟨w, hw, hsign⟩ := hnegative
  have hany : (weights.any fun w => Scalar.less w 0 || !Scalar.isFinite w) = true :=
    List.any_eq_true.mpr ⟨w, hw, by rw [hsign, Bool.true_or]⟩
  have hfault : normalise weights = .error .zeroMass := by
    unfold normalise
    dsimp only
    rw [hany, Bool.or_true, if_pos rfl]
  unfold reweigh
  rw [if_neg (not_not.mpr hlength), hfault]
  rfl

/-- The signs of weights are checked after equal values have been merged.  So a negative weight is
refused when a value has a negative weight in all, and always when no value is given twice.
Reweighing, which merges nothing, refuses every negative weight. -/
theorem signs_checked_after_merging (values : List ℚ) {weights : List ℚ}
    (hnegative : ∃ w ∈ weights, w < 0) :
    ((∃ fault, withWeights values weights = .error fault) ↔
        values.length ≠ weights.length ∨ (∃ x ∈ values, x < 0 ∨ 1 < x) ∨ weights.sum ≤ 0 ∨
          ∃ x ∈ values, weightGiven (values.zip weights) x < 0) ∧
      (values.Nodup → ∃ fault, withWeights values weights = .error fault) ∧
      ∀ d : Distribution ℚ, weights.length = d.supports.length →
        d.reweigh weights = .error .zeroMass := by
  refine ⟨withWeights_refused_iff, fun hnodup => withWeights_refused_of_nodup hnodup hnegative, ?_⟩
  intro d hlength
  obtain ⟨w, hw, hsign⟩ := hnegative
  exact reweigh_refused hlength ⟨w, hw, decide_eq_true hsign⟩

/-- The weight of one value is given in two parts, one of them negative. -/
theorem outweighed_weight_accepted :
    ¬ ∀ values weights : List ℚ, (∃ w ∈ weights, w < 0) →
      ∃ fault, withWeights values weights = .error fault := by
  intro hrefused
  have haccepted : withWeights [1 / 2, 1 / 2] [-1, 2] = .ok ⟨[(1 / 2 : ℚ)], [1]⟩ := by
    rw [withWeights_eq_ok_iff]
    exact ⟨rfl, by decide +kernel, by decide +kernel, by decide +kernel,
      congrArg₂ Distribution.mk (by decide +kernel) (by decide +kernel)⟩
  obtain ⟨fault, hfault⟩ := hrefused [1 / 2, 1 / 2] [-1, 2] ⟨-1, by decide +kernel⟩
  rw [haccepted] at hfault
  cases hfault

/-- Given for two values, the same weights are refused, and so they are for reweighing. -/
theorem halfOdds_signs_checked :
    (∃ w ∈ [(-1 : ℚ), 2], w < 0) ∧
      (¬ ∃ fault, withWeights [1 / 2, 1 / 2] [(-1 : ℚ), 2] = .error fault) ∧
      (∃ fault, withWeights [1 / 2, 1 / 4] [(-1 : ℚ), 2] = .error fault) ∧
      (⟨[1 / 4, 1 / 2], [1 / 2, 1 / 2]⟩ : Distribution ℚ).reweigh [-1, 2] = .error .zeroMass := by
  have hnegative : ∃ w ∈ [(-1 : ℚ), 2], w < 0 := ⟨-1, by decide +kernel⟩
  obtain ⟨hmerged, _, _⟩ := signs_checked_after_merging [1 / 2, 1 / 2] hnegative
  obtain ⟨_, hdistinct, hreweighed⟩ := signs_checked_after_merging [1 / 2, 1 / 4] hnegative
  refine ⟨hnegative, ?_, hdistinct (by decide +kernel), hreweighed _ rfl⟩
  rw [hmerged]
  decide +kernel

end Distribution

end DerivationBelief

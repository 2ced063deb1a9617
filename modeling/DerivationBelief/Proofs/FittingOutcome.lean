import DerivationBelief.Proofs.MeanShares
import Mathlib.Tactic

/-!
# What fitting changes

However many rounds there are, the tables that are not named stay, values that are zero stay zero,
and the same rows are explained.  So the sizes of all tables that are multiplied stay too, and a
fault can only come in the first round, before any table has changed.
-/

namespace DerivationBelief

namespace TableNetwork

open DenseTable

variable {n m l : TableNetwork ℚ} {table : EvidenceTable} {params : List EstimatedFactor}
  {row : List (Option Bool)} {p : EstimatedFactor} {a : Assignment} {e : Expectation ℚ}

/-- What fitting keeps of a network. -/
structure Follows (table : EvidenceTable) (params : List EstimatedFactor) (n m : TableNetwork ℚ) :
    Prop where
  fittable : m.Fittable table params
  alike : n.Alike m
  unnamed : ∀ i, i ∉ params.map EstimatedFactor.factor → m.tables[i]? = n.tables[i]?
  zeros : ∀ p ∈ params, ∀ t new, n.tables[p.factor]? = some t → m.tables[p.factor]? = some new →
    ∀ s, t.value s = 0 → new.value s = 0
  explains : ∀ row ∈ table.rows, 0 < m.rowLikelihood table row ↔ 0 < n.rowLikelihood table row

theorem Follows.refl (hn : n.Fittable table params) : n.Follows table params n := by
  constructor
  case fittable => exact hn
  case alike => exact .refl n
  case unnamed => exact fun _ _ => rfl
  case zeros =>
    intro p _ t new ht hnew s hs
    cases ht.symm.trans hnew
    exact hs
  case explains => exact fun _ _ => Iff.rfl

theorem Follows.trans (h : n.Follows table params m) (hnext : m.Follows table params l) :
    n.Follows table params l := by
  constructor
  case fittable => exact hnext.fittable
  case alike => exact h.alike.trans hnext.alike
  case unnamed => exact fun i hi => (hnext.unnamed i hi).trans (h.unnamed i hi)
  case zeros =>
    intro p hp t last ht hlast s hs
    obtain ⟨new, hnew, _⟩ := h.fittable.named p hp
    exact hnext.zeros p hp new last hnew hlast s (h.zeros p hp t new ht hnew s hs)
  case explains => exact fun row hrow => (hnext.explains row hrow).trans (h.explains row hrow)

/-! ## One round -/

theorem outlines_eq_of_shapes (hshapes : m.shapes = n.shapes) :
    outlines n.tables = outlines m.tables := by
  have houtlines : ∀ k : TableNetwork ℚ,
      outlines k.tables = k.shapes.map (fun shape => (shape.1, shape.2.1)) := by
    intro k
    rw [shapes, List.map_map]
    rfl
  rw [houtlines, houtlines, hshapes]

/-- The value of a state that is replaced by a mean. -/
theorem value_of_values (t : DenseTable ℚ) {count s : Nat} (f : Nat → ℚ) (hs : s < count) :
    ({ t with values := ((List.range count).map f).toArray } : DenseTable ℚ).value s = f s := by
  simp [value, Array.getD_eq_getD_getElem?, hs]

theorem value_beyond_values (t : DenseTable ℚ) {count s : Nat} (f : Nat → ℚ) (hs : ¬ s < count) :
    ({ t with values := ((List.range count).map f).toArray } : DenseTable ℚ).value s = 0 := by
  simp [value, Array.getD_eq_getD_getElem?, hs]

/-- What a round has made of the network. -/
structure Refits (table : EvidenceTable) (params : List EstimatedFactor) (n m : TableNetwork ℚ) :
    Prop where
  before : n.Fittable table params
  after : m.Fittable table params
  alike : n.Alike m
  values : n.Refitted m params (fun v => (List.range (n.states v)).map (n.mean table v))

theorem Fittable.round (h : n.Fittable table params) (hparams : params ≠ [])
    (he : n.expect table params = .ok e) :
    n.Refits table params (n.maximise params e).model := by
  have hcards := n.maximise_cards params e
  have hvalues := h.round_refits hparams he
  constructor
  case before => exact h
  case after =>
    constructor
    case regular => exact h.regular.round he
    case binary => exact hcards ▸ h.binary
    case named =>
      intro p hp
      obtain ⟨t, ht, hvars⟩ := h.named p hp
      exact ⟨_, hvalues.named p hp t ht, hvars⟩
  case alike =>
    have hshapes := maximise_shapes (expect_bounded he)
    exact ⟨outlines_eq_of_shapes hshapes, hcards.symm, (n.maximise_limit params e).symm⟩
  case values => exact hvalues

namespace Refits

theorem rowWorlds_eq (h : n.Refits table params m) (row : List (Option Bool)) :
    m.rowWorlds table row = n.rowWorlds table row := by
  unfold rowWorlds
  rw [h.alike.worlds_eq, h.alike.variables_eq]

/-- A parameter weighs the mean share of its state. -/
theorem named_weight (h : n.Refits table params m) (hp : p ∈ params) {new : DenseTable ℚ}
    (hnew : m.tables[p.factor]? = some new) (ha : InRange n.states a) :
    new.weightAt a = n.mean table p.var (a p.var) := by
  obtain ⟨t, ht, hvars⟩ := h.before.named p hp
  have hnamed := h.values.named p hp t ht
  cases hnew.symm.trans hnamed
  have hfits := h.after.regular.fits _ (List.mem_of_getElem? hnew)
  rw [hfits.weightAt_single hvars, value_of_values t _ (ha p.var)]

theorem zeros (h : n.Refits table params m) (hp : p ∈ params) {t new : DenseTable ℚ}
    (ht : n.tables[p.factor]? = some t) (hnew : m.tables[p.factor]? = some new) {s : Nat}
    (hs : t.value s = 0) : new.value s = 0 := by
  cases hnew.symm.trans (h.values.named p hp t ht)
  by_cases hstate : s < n.states p.var
  · rw [value_of_values t _ hstate]
    exact h.before.mean_of_zero hp ht hs
  · exact value_beyond_values t _ hstate

/-- A state that explains a row before the round explains it afterwards. -/
theorem weight_pos (h : n.Refits table params m) (hrow : row ∈ n.explained table)
    (ha : a ∈ n.rowWorlds table row) (hweight : 0 < jointWeight n.factors a) :
    0 < jointWeight m.factors a := by
  rw [h.after.regular.weight_pos_iff]
  intro new hnew
  -- A named table weighs the mean share of the state, which this assignment has made positive.
  obtain ⟨i, hi⟩ := List.mem_iff_getElem?.mp hnew
  by_cases hnamed : i ∈ params.map EstimatedFactor.factor
  · obtain ⟨p, hp, rfl⟩ := List.mem_map.mp hnamed
    rw [h.named_weight hp hi (inRange_of_mem_rowWorlds ha)]
    exact h.before.regular.mean_pos p.var hrow ha hweight
  · rw [h.values.unnamed i hnamed] at hi
    exact h.before.regular.weight_pos_iff.mp hweight new (List.mem_of_getElem? hi)

/-- Nothing gets a positive weight that had none. -/
theorem weight_pos_before (h : n.Refits table params m) (ha : InRange n.states a)
    (hweight : 0 < jointWeight m.factors a) : 0 < jointWeight n.factors a := by
  rw [h.before.regular.weight_pos_iff]
  intro t ht
  obtain ⟨i, hi⟩ := List.mem_iff_getElem?.mp ht
  by_cases hnamed : i ∈ params.map EstimatedFactor.factor
  · obtain ⟨p, hp, rfl⟩ := List.mem_map.mp hnamed
    obtain ⟨old, hold, hvars⟩ := h.before.named p hp
    cases hold.symm.trans hi
    have hnew := h.values.named p hp t hi
    have hpositive := h.after.regular.weight_pos_iff.mp hweight _ (List.mem_of_getElem? hnew)
    rw [h.named_weight hp hnew ha] at hpositive
    refine lt_of_le_of_ne (h.before.regular.weightAt_nonneg ht a) ?_
    intro hzero
    rw [(h.before.regular.fits t ht).weightAt_single hvars] at hzero
    exact hpositive.ne' (h.before.mean_of_zero hp hi hzero.symm)
  · rw [← h.values.unnamed i hnamed] at hi
    exact h.after.regular.weight_pos_iff.mp hweight t (List.mem_of_getElem? hi)

theorem follows (h : n.Refits table params m) : n.Follows table params m := by
  constructor
  case fittable => exact h.after
  case alike => exact h.alike
  case unnamed => exact h.values.unnamed
  case zeros => exact fun p hp t new ht hnew s hs => h.zeros hp ht hnew hs
  case explains =>
    intro row hrow
    rw [h.after.regular.rowLikelihood_pos_iff, h.before.regular.rowLikelihood_pos_iff,
      h.rowWorlds_eq]
    constructor
    · rintro ⟨a, ha, hweight⟩
      exact ⟨a, ha, h.weight_pos_before (inRange_of_mem_rowWorlds ha) hweight⟩
    · rintro ⟨a, ha, hweight⟩
      have hexplained : row ∈ n.explained table := mem_explained.mpr
        ⟨hrow, h.before.regular.rowLikelihood_pos_iff.mpr ⟨a, ha, hweight⟩⟩
      exact ⟨a, ha, h.weight_pos hexplained ha hweight⟩

/-- Every parameter is a distribution after a round. -/
theorem total_eq_one (h : n.Refits table params m) (hexplained : n.explained table ≠ [])
    (hp : p ∈ params) {new : DenseTable ℚ} (hnew : m.tables[p.factor]? = some new) :
    new.total = 1 := by
  obtain ⟨t, ht, _⟩ := h.before.named p hp
  cases hnew.symm.trans (h.values.named p hp t ht)
  rw [total_eq, List.toList_toArray, sum_map_range]
  exact sum_mean hexplained p.var

end Refits

/-! ## All rounds -/

/-- Networks that explain the same rows pass over the same rows, and fail in the same ones. -/
theorem Follows.beliefs_matching (hn : n.Fittable table params) (h : n.Follows table params m)
    (hrow : row ∈ table.rows) :
    Matching (fun _ _ => True)
      (params.mapM (fun p => n.belief (rowEvidence table.vars row) p.var))
      (params.mapM (fun p => m.belief (rowEvidence table.vars row) p.var)) := by
  apply Matching.mapM
  intro p hp
  exact h.alike.belief_matching hn.regular h.fittable.regular (hn.below row) (hn.known hp)
    (h.explains row hrow).symm

theorem Follows.expect_matching (hn : n.Fittable table params) (h : n.Follows table params m) :
    Matching (fun _ _ => True) (n.expect table params) (m.expect table params) := by
  unfold expect
  apply Matching.foldlM _ trivial
  intro row hrow first second _
  have hbeliefs := h.beliefs_matching hn hrow
  unfold expectRow
  generalize params.mapM (fun p => n.belief (rowEvidence table.vars row) p.var) = answer at hbeliefs
  generalize params.mapM (fun p => m.belief (rowEvidence table.vars row) p.var) = other at hbeliefs
  cases hbeliefs with
  | ok _ => exact .ok trivial
  | error fault =>
      cases fault with
      | inconsistentEvidence => exact .ok trivial
      | unreadable _ | malformed _ _ _ | tableTooLarge _ _ | variableOutOfRange _ _
      | factorOutOfRange _ _ => exact .error _

theorem Follows.fitRounds (hn : n.Fittable table params) (hparams : params ≠ []) (tolerance : ℚ)
    (overtime : Nat → Bool) (rounds : Nat) :
    n.Follows table params (fitRounds tolerance table params overtime rounds n).2 := by
  apply fitRounds_keeps (n.Follows table params) _ (.refl hn)
  intro k e hk he _
  exact hk.trans (hk.fittable.round hparams he).follows

/-- Where the first round succeeds, all rounds do. -/
theorem Follows.fitRounds_ok (hn : n.Fittable table params) (hparams : params ≠ [])
    (he : n.expect table params = .ok e) (h : n.Follows table params m) (tolerance : ℚ)
    (overtime : Nat → Bool) (rounds : Nat) :
    (TableNetwork.fitRounds tolerance table params overtime rounds m).1 = .ok () := by
  -- Every later network follows the first one, so its expectation succeeds as that one did.
  induction rounds generalizing overtime m with
  | zero => rfl
  | succ rounds ih =>
      unfold TableNetwork.fitRounds
      split
      next => rfl
      next =>
        cases hnext : m.expect table params with
        | error fault => cases ((h.expect_matching hn).error_iff.mpr hnext).symm.trans he
        | ok next =>
            dsimp only
            split
            next => rfl
            next =>
              split
              next => rfl
              next => exact ih (h.trans (h.fittable.round hparams hnext).follows) _

/-- Fitting that fails does so in its first round, and leaves the network. -/
theorem Fittable.fitRounds_error (hn : n.Fittable table params) (hparams : params ≠ [])
    {tolerance : ℚ} {overtime : Nat → Bool} {rounds : Nat} {fault : SolverFault}
    (hfault : (fitRounds tolerance table params overtime rounds n).1 = .error fault) :
    (fitRounds tolerance table params overtime rounds n).2 = n := by
  cases rounds with
  | zero => rfl
  | succ rounds =>
      cases he : n.expect table params with
      | error first =>
          unfold fitRounds
          rw [he]
          split <;> rfl
      | ok e =>
          rw [(Follows.refl hn).fitRounds_ok hn hparams he] at hfault
          cases hfault

/-- Without a row that is explained the network stays. -/
theorem Fittable.fitRounds_unexplained (hn : n.Fittable table params) (hparams : params ≠ [])
    (hnone : n.explained table = []) (tolerance : ℚ) (overtime : Nat → Bool) (rounds : Nat) :
    (fitRounds tolerance table params overtime rounds n).2 = n := by
  apply fitRounds_keeps (fun k => k = n) _ rfl
  rintro k e rfl he hused
  rw [hn.expect_ok hparams he, hnone] at hused
  exact absurd rfl hused

/-- All named tables are distributions. -/
def Distributed (params : List EstimatedFactor) (n : TableNetwork ℚ) : Prop :=
  ∀ p ∈ params, ∀ t, n.tables[p.factor]? = some t → t.total = 1

theorem Fittable.explained_of_used (hn : n.Fittable table params) (hparams : params ≠ [])
    (he : n.expect table params = .ok e) (hused : e.used ≠ 0) : n.explained table ≠ [] := by
  rw [hn.expect_ok hparams he] at hused
  exact mt List.length_eq_zero_iff.mpr hused

/-- Rounds keep named tables distributions. -/
theorem Fittable.fitRounds_distributed (hn : n.Fittable table params) (hparams : params ≠ [])
    (hdistributed : n.Distributed params) (tolerance : ℚ) (overtime : Nat → Bool) (rounds : Nat) :
    (fitRounds tolerance table params overtime rounds n).2.Distributed params := by
  have hround : ∀ (k : TableNetwork ℚ) (e : Expectation ℚ),
      k.Fittable table params ∧ k.Distributed params →
      k.expect table params = .ok e → e.used ≠ 0 →
        (k.maximise params e).model.Fittable table params ∧
          (k.maximise params e).model.Distributed params := by
    intro k e hk he hused
    have hrefits := hk.1.round hparams he
    have hexplained := hk.1.explained_of_used hparams he hused
    exact ⟨hrefits.after, fun p hp t ht => hrefits.total_eq_one hexplained hp ht⟩
  exact (fitRounds_keeps _ hround ⟨hn, hdistributed⟩ tolerance overtime rounds).2

/-- One round in time makes them distributions. -/
theorem Fittable.fitRounds_ok_distributed (hn : n.Fittable table params) (hparams : params ≠ [])
    (hexplained : n.explained table ≠ []) {tolerance : ℚ} {overtime : Nat → Bool} {rounds : Nat}
    (hrounds : 0 < rounds) (htime : overtime 0 = false)
    (hok : (fitRounds tolerance table params overtime rounds n).1 = .ok ()) :
    (fitRounds tolerance table params overtime rounds n).2.Distributed params := by
  cases rounds with
  | zero => exact absurd hrounds (lt_irrefl 0)
  | succ rounds =>
      unfold fitRounds at hok ⊢
      rw [htime, if_neg Bool.false_ne_true] at hok ⊢
      cases he : n.expect table params with
      | error fault =>
          rw [he] at hok
          cases hok
      | ok e =>
          have hused : e.used ≠ 0 := by
            rw [hn.expect_ok hparams he]
            exact mt List.length_eq_zero_iff.mp hexplained
          have hround := hn.round hparams he
          have hfirst : (n.maximise params e).model.Distributed params :=
            fun p hp t ht => hround.total_eq_one hexplained hp ht
          dsimp only
          rw [if_neg hused]
          split
          next => exact hfirst
          next => exact hround.after.fitRounds_distributed hparams hfirst tolerance _ rounds

/-! ## Networks that fitting never changes -/

/-- Without parameters there is nothing to change, and without beliefs no row is used. -/
theorem fitRounds_same (hidle : params = [] ∨ ∃ t ∈ n.tables, t.values.size = 0) (tolerance : ℚ)
    (table : EvidenceTable) (overtime : Nat → Bool) (rounds : Nat) :
    (fitRounds tolerance table params overtime rounds n).2 = n := by
  apply fitRounds_keeps (fun k => k = n) _ rfl
  rintro k e rfl he hused
  rcases hidle with rfl | ⟨t, ht, hempty⟩
  · rfl
  · have hbelief : ∀ evidence v belief, k.belief evidence v ≠ .ok belief :=
      fun evidence v => belief_ne_ok ⟨t, ht, vanishing_of_size hempty⟩
    by_cases hparams : params = []
    · subst params
      rfl
    · refine absurd (foldlM_keeps (fun e : Expectation ℚ => e.used = 0) ?_ rfl he) hused
      intro sums row next hsums hnext
      unfold expectRow at hnext
      split at hnext
      next beliefs hbeliefs =>
        obtain ⟨p, hp⟩ := List.exists_mem_of_ne_nil params hparams
        obtain ⟨belief, hanswer⟩ := exists_of_mapM_eq_ok hbeliefs p hp
        exact absurd hanswer (hbelief _ _ _)
      next =>
        cases hnext
        exact hsums
      next => cases hnext

theorem rowLikelihood_of_empty (hempty : ∃ t ∈ n.tables, t.values.size = 0) (table : EvidenceTable)
    (row : List (Option Bool)) : n.rowLikelihood table row = 0 := by
  obtain ⟨t, ht, hsize⟩ := hempty
  rw [rowLikelihood_eq_sum, List.sum_eq_zero]
  rw [List.forall_mem_map]
  intro a _
  rw [jointWeight_factors, weightOf, List.prod_eq_zero_iff, List.mem_map]
  exact ⟨t, ht, vanishing_of_size hsize _⟩

end TableNetwork

end DerivationBelief

import DerivationBelief.Proofs.ArrivalLookups
import DerivationBelief.Proofs.TableProduct
import Mathlib.Tactic

/-!
# What the operations on tables give

Tables with positive cardinalities on which they agree have values for all joint states of their
variables.  Their product has the product of the values that they have at the same joint state, a
slice has the values of the table with the variable set to the state, and summing out adds up the
slices.  Slices of different variables commute.  All of these read values that are there.
-/

namespace DerivationBelief

namespace DenseTable

variable {α : Type}

/-! ## Consistent tables -/

/-- Tables whose variables differ, with positive cardinalities on which they agree and with one
value for each joint state. -/
structure Consistent (tables : List (DenseTable α)) : Prop where
  nodup : ∀ t ∈ tables, t.vars.Nodup
  cards_length : ∀ t ∈ tables, t.cards.length = t.vars.length
  positive : ∀ t ∈ tables, ∀ card ∈ t.cards, 0 < card
  agree : ∀ t ∈ tables, ∀ u ∈ tables, ∀ first ∈ t.vars.zip t.cards, ∀ second ∈ u.vars.zip u.cards,
    first.1 = second.1 → first.2 = second.2
  size_eq : ∀ t ∈ tables, t.values.size = t.cards.prod

/-- The cardinality that some tables give to a variable. -/
def cardIn (tables : List (DenseTable α)) (v : Nat) : Nat :=
  (Arrival.get? (tables.flatMap (fun t => t.vars.zip t.cards)) v).getD 1

section Cardinalities

variable {tables : List (DenseTable α)} {t : DenseTable α}

theorem mem_pairs {v card : Nat} :
    (v, card) ∈ tables.flatMap (fun t => t.vars.zip t.cards) ↔
      ∃ t ∈ tables, (v, card) ∈ t.vars.zip t.cards :=
  List.mem_flatMap

theorem Consistent.cardIn_eq (htables : Consistent tables) (ht : t ∈ tables) {v card : Nat}
    (hcard : (v, card) ∈ t.vars.zip t.cards) : cardIn tables v = card := by
  have hmem : (v, card) ∈ tables.flatMap (fun t => t.vars.zip t.cards) :=
    mem_pairs.mpr ⟨t, ht, hcard⟩
  unfold cardIn
  cases hget : Arrival.get? (tables.flatMap (fun t => t.vars.zip t.cards)) v with
  | none => exact absurd (List.mem_map_of_mem hmem) (Arrival.get?_eq_none_iff.mp hget)
  | some found =>
      obtain ⟨u, hu, hfound⟩ := mem_pairs.mp (Arrival.mem_of_get? hget)
      exact htables.agree u hu t ht _ hfound _ hcard rfl

theorem Consistent.cardIn_pos (htables : Consistent tables) (v : Nat) : 0 < cardIn tables v := by
  unfold cardIn
  cases hget : Arrival.get? (tables.flatMap (fun t => t.vars.zip t.cards)) v with
  | none => exact Nat.one_pos
  | some found =>
      obtain ⟨u, hu, hfound⟩ := mem_pairs.mp (Arrival.mem_of_get? hget)
      exact htables.positive u hu found (List.of_mem_zip hfound).2

theorem Consistent.fits (htables : Consistent tables) (ht : t ∈ tables) :
    t.Fits (cardIn tables) := by
  have hcards : t.cards = t.vars.map (cardIn tables) := by
    apply List.ext_getElem
    · rw [List.length_map, htables.cards_length t ht]
    · intro i hi hmap
      rw [List.length_map] at hmap
      have hpair : (t.vars[i], t.cards[i]) ∈ t.vars.zip t.cards :=
        List.mem_iff_getElem.mpr ⟨i, by simp [hi, hmap], List.getElem_zip⟩
      rw [List.getElem_map, htables.cardIn_eq ht hpair]
  exact ⟨htables.nodup t ht, hcards, by rw [htables.size_eq t ht, hcards]⟩

end Cardinalities

/-! ## Values at joint states -/

section Assignments

variable {t : DenseTable α} {card : Nat → Nat} {a : Assignment}

/-- The value at the joint state that an assignment gives to the variables, if there is one. -/
def at? (t : DenseTable α) (a : Assignment) : Option α :=
  t.values[jointIndex t.cards (t.vars.map a)]?

theorem at?_congr {b : Assignment} (hsame : ∀ v ∈ t.vars, b v = a v) : t.at? a = t.at? b := by
  unfold at?
  rw [List.map_congr_left hsame]

/-- An assignment in range for some variables can be changed at others to be in range for all. -/
theorem exists_inRange (hcard : ∀ v, 0 < card v) {vars : List Nat}
    (ha : ∀ v ∈ vars, a v < card v) : ∃ b, InRange card b ∧ ∀ v ∈ vars, b v = a v := by
  refine ⟨fun v => if v ∈ vars then a v else 0, ?_, fun v hv => if_pos hv⟩
  intro v
  dsimp only
  split
  next hv => exact ha v hv
  next => exact hcard v

theorem update_same_of_erase {v state : Nat} {b : Assignment}
    (hsame : ∀ u ∈ t.vars.erase v, b u = a u) :
    ∀ u ∈ t.vars, Function.update b v state u = Function.update a v state u := by
  intro u hu
  by_cases huv : u = v
  · rw [huv, Function.update_self, Function.update_self]
  · rw [Function.update_of_ne huv, Function.update_of_ne huv]
    exact hsame u ((List.mem_erase_of_ne huv).mpr hu)

/-- The place that a slice reads for one of its own places. -/
def slicePlace (t : DenseTable α) (v state index : Nat) : Nat :=
  let position := t.vars.idxOf v
  let stride := (t.cards.take position).prod
  index % stride + stride * (state + t.cards.getD position 1 * (index / stride))

end Assignments

section Values

variable [Scalar α] {tables : List (DenseTable α)} {t : DenseTable α} {card : Nat → Nat}
  {a : Assignment}

theorem Fits.at?_eq (ht : t.Fits card) (ha : InRange card a) : t.at? a = some (t.weightAt a) :=
  getElem?_of_lt (ht.index_lt ha)

/-- The product has the product of the values of the operands at the same joint state. -/
theorem product_at? (hcard : ∀ v, 0 < card v) (htables : ∀ t ∈ tables, t.Fits card) {limit : Nat}
    {joint : DenseTable α} (hjoint : product tables limit = .ok joint)
    (ha : ∀ v ∈ unionVars tables, a v < card v) :
    ∃ factors, tables.mapM (fun t => t.at? a) = some factors ∧
      joint.at? a = some (Scalar.product factors) := by
  obtain ⟨b, hb, hsame⟩ := exists_inRange hcard ha
  obtain ⟨hvars, hfits, hweight⟩ := product_weights hcard htables hjoint
  refine ⟨tables.map (fun t => t.weightAt b), ?_, ?_⟩
  · apply mapM_eq_some_map
    intro t ht
    rw [at?_congr (fun v hv => hsame v (subset_unionVars ht hv)), (htables t ht).at?_eq hb]
  · rw [at?_congr (fun v hv => hsame v (hvars ▸ hv)), hfits.at?_eq hb, hweight b hb]

/-- A slice has the values of the table with the variable set to the state. -/
theorem Fits.restrict_at? (ht : t.Fits card) (hcard : ∀ v, 0 < card v) {v state : Nat}
    (hv : v ∈ t.vars) (hstate : state < card v) (ha : ∀ u ∈ t.vars.erase v, a u < card u) :
    ∃ x, (t.restrict v state).at? a = some x ∧ t.at? (Function.update a v state) = some x := by
  obtain ⟨b, hb, hsame⟩ := exists_inRange hcard ha
  obtain ⟨hvars, hfits, hweight⟩ := ht.restrict hv hstate
  refine ⟨t.weightAt (Function.update b v state), ?_, ?_⟩
  · rw [at?_congr (fun u hu => hsame u (hvars ▸ hu)), hfits.at?_eq hb, hweight b hb]
  · rw [at?_congr (update_same_of_erase hsame), ht.at?_eq (hb.update hstate)]

/-- Summing out a variable adds up the values at its states, the first one first. -/
theorem Fits.sumOut_at? (ht : t.Fits card) (hcard : ∀ v, 0 < card v) {v : Nat} (hv : v ∈ t.vars)
    (ha : ∀ u ∈ t.vars.erase v, a u < card u) :
    ∃ first rest,
      (List.range (card v)).mapM (fun state => t.at? (Function.update a v state)) =
        some (first :: rest) ∧
      (t.sumOut v).at? a = some (rest.foldl (· + ·) first) := by
  obtain ⟨b, hb, hsame⟩ := exists_inRange hcard ha
  obtain ⟨hvars, hfits, hweight⟩ := ht.sumOut_slices hv (hcard v)
  set slice := fun state => t.weightAt (Function.update b v state) with hslice
  have hreads : (List.range (card v)).mapM (fun state => t.at? (Function.update a v state)) =
      some ((List.range (card v)).map slice) := by
    apply mapM_eq_some_map
    intro state hstate
    rw [at?_congr (update_same_of_erase hsame),
      ht.at?_eq (hb.update (List.mem_range.mp hstate))]
  refine ⟨slice 0, ((List.range (card v - 1)).map (· + 1)).map slice, ?_, ?_⟩
  · rw [hreads, ← Nat.sub_add_cancel (hcard v), List.range_succ_eq_map]
    rfl
  · rw [at?_congr (fun u hu => hsame u (hvars ▸ hu)), hfits.at?_eq hb, hweight b hb, List.foldl_map]
    rfl

/-! ## Slices of different variables -/

theorem restrict_comm (hcard : ∀ v, 0 < card v) (ht : t.Fits card) {u v s r : Nat} (hne : u ≠ v)
    (hs : u ∈ t.vars → s < card u) (hr : v ∈ t.vars → r < card v) :
    (t.restrict u s).restrict v r = (t.restrict v r).restrict u s := by
  by_cases hu : u ∈ t.vars
  · by_cases hv : v ∈ t.vars
    · obtain ⟨huVars, huFits, huWeight⟩ := ht.restrict hu (hs hu)
      obtain ⟨hvVars, hvFits, hvWeight⟩ := ht.restrict hv (hr hv)
      have huv : v ∈ (t.restrict u s).vars := huVars ▸ (List.mem_erase_of_ne hne.symm).mpr hv
      have hvu : u ∈ (t.restrict v r).vars := hvVars ▸ (List.mem_erase_of_ne hne).mpr hu
      obtain ⟨hleftVars, hleftFits, hleftWeight⟩ := huFits.restrict huv (hr hv)
      obtain ⟨hrightVars, hrightFits, hrightWeight⟩ := hvFits.restrict hvu (hs hu)
      apply hleftFits.ext hcard hrightFits
      · rw [hleftVars, hrightVars, huVars, hvVars, List.erase_comm]
      · intro a ha
        rw [hleftWeight a ha, hrightWeight a ha, huWeight _ (ha.update (hr hv)),
          hvWeight _ (ha.update (hs hu)), Function.update_comm hne]
    · have hvu : v ∉ (t.restrict u s).vars := by
        rw [restrict_vars]
        exact fun hmem => hv (List.mem_of_mem_erase hmem)
      rw [restrict_of_not_mem hvu, restrict_of_not_mem hv]
  · have huv : u ∉ (t.restrict v r).vars := by
      rw [restrict_vars]
      exact fun hmem => hu (List.mem_of_mem_erase hmem)
    rw [restrict_of_not_mem huv, restrict_of_not_mem hu]

/-! ## What a slice reads -/

theorem place_lt_of_split {low card high state index : Nat} (hindex : index < low * high)
    (hstate : state < card) :
    index % low + low * (state + card * (index / low)) < low * (card * high) := by
  have hlow : 0 < low := Nat.pos_of_mul_pos_right (Nat.zero_lt_of_lt hindex)
  have hhigh : index / low < high := Nat.div_lt_of_lt_mul hindex
  have hmiddle : state + card * (index / low) + 1 ≤ card * high := by
    calc
      state + card * (index / low) + 1 ≤ card + card * (index / low) := by omega
      _ = card * (index / low + 1) := by ring
      _ ≤ card * high := Nat.mul_le_mul_left card hhigh
  calc
    index % low + low * (state + card * (index / low))
        < low + low * (state + card * (index / low)) := by
          exact Nat.add_lt_add_right (Nat.mod_lt index hlow) _
    _ = low * (state + card * (index / low) + 1) := by ring
    _ ≤ low * (card * high) := Nat.mul_le_mul_left low hmiddle

theorem Fits.restrict_reads (ht : t.Fits card) {v state : Nat} (hv : v ∈ t.vars)
    (hstate : state < card v) {index : Nat} (hindex : index < (t.restrict v state).values.size) :
    t.slicePlace v state index < t.values.size ∧
      (t.restrict v state).values[index]? = t.values[t.slicePlace v state index]? := by
  obtain ⟨pre, post, hvars, hpre⟩ := List.eq_append_cons_of_mem hv
  obtain ⟨_, _, hsize, hvalue⟩ := restrict_split state hpre ht hvars (Nat.zero_lt_of_lt hstate)
  obtain ⟨hcardAt, hstride⟩ := ht.split_cards hvars
  have hplace : t.slicePlace v state index = index % (pre.map card).prod +
      (pre.map card).prod * (state + card v * (index / (pre.map card).prod)) := by
    have hposition : t.vars.idxOf v = pre.length := by
      rw [hvars, List.idxOf_append_of_notMem hpre, List.idxOf_cons_self, add_zero]
    unfold slicePlace
    dsimp only
    rw [hposition, hcardAt, List.prod_eq_foldl_nat, hstride]
  have hwithin := hindex
  rw [hsize] at hwithin
  have hlt : t.slicePlace v state index < t.values.size := by
    rw [hplace, ht.size_eq, hvars, List.map_append, List.map_cons, List.prod_append, List.prod_cons]
    exact place_lt_of_split hwithin hstate
  refine ⟨hlt, ?_⟩
  rw [getElem?_of_lt hindex, getElem?_of_lt hlt, hvalue index hwithin, hplace]

/-! ## All operations -/

/-- For consistent tables there are cardinalities that all of them fit.  Their product, when it is
not too large, is over the union of their variables in the order of arrival; it has the product of
the values of the operands at the same joint state, and no step towards it reads beyond an operand
or takes a place below zero.  Of any table that fits the cardinalities, so of the operands, the
product and all slices, a slice has the values of the table with the variable set to the state and
reads only values that are there, summing out adds up the slices in the order of the states, and
slices of different variables commute. -/
theorem operations_index (htables : Consistent tables) (limit : Nat) :
    let card := cardIn tables
    let vars := (tables.flatMap DenseTable.vars).eraseDups
    let size := (vars.map card).prod
    (∀ v, 0 < card v) ∧ (∀ t ∈ tables, t.Fits card) ∧
      (size ≤ limit → size + 1 < Text.word64 → ∃ joint, product tables limit = .ok joint ∧
        joint.vars = vars ∧ joint.Fits card ∧ joint.values = (multiplied tables size).values ∧
        ∀ a, (∀ v ∈ vars, a v < card v) →
          ∃ factors, tables.mapM (fun t => t.at? a) = some factors ∧
            joint.at? a = some (Scalar.product factors)) ∧
      (limit < size ∨ Text.word64 ≤ size + 1 →
        product tables limit = .error (.tableTooLarge (min size (Text.word64 - 1)) limit)) ∧
      (∀ count, multiplyNext? tables (wheels tables (unionScope tables)) (multiplied tables count) =
        some (multiplied tables (count + 1))) ∧
      (∀ t : DenseTable α, t.Fits card → ∀ v ∈ t.vars, ∀ state < card v,
        (t.restrict v state).vars = t.vars.erase v ∧ (t.restrict v state).Fits card ∧
        (∀ a, (∀ u ∈ t.vars.erase v, a u < card u) →
          ∃ x, (t.restrict v state).at? a = some x ∧
            t.at? (Function.update a v state) = some x) ∧
        ∀ index < (t.restrict v state).values.size,
          t.slicePlace v state index < t.values.size ∧
            (t.restrict v state).values[index]? = t.values[t.slicePlace v state index]?) ∧
      (∀ t : DenseTable α, t.Fits card → ∀ v ∈ t.vars,
        (t.sumOut v).vars = t.vars.erase v ∧ (t.sumOut v).Fits card ∧
        ∀ a, (∀ u ∈ t.vars.erase v, a u < card u) → ∃ first rest,
          (List.range (card v)).mapM (fun state => t.at? (Function.update a v state)) =
            some (first :: rest) ∧
          (t.sumOut v).at? a = some (rest.foldl (· + ·) first)) ∧
      ∀ t : DenseTable α, t.Fits card → ∀ u v s r, u ≠ v →
        (u ∈ t.vars → s < card u) → (v ∈ t.vars → r < card v) →
        (t.restrict u s).restrict v r = (t.restrict v r).restrict u s := by
  intro card vars size
  have hcard : ∀ v, 0 < card v := htables.cardIn_pos
  have hfits : ∀ t ∈ tables, t.Fits card := fun t ht => htables.fits ht
  have hvars : unionVars tables = vars := Arrival.distinct_eq_eraseDups _
  have hpositive : ∀ c ∈ vars.map card, 0 < c := by
    rw [List.forall_mem_map]
    exact fun v _ => hcard v
  refine ⟨hcard, hfits, ?_, ?_, multiplyNext?_multiplied hcard hfits, ?_, ?_, ?_⟩
  · intro hlimit hword
    have hproduct := product_eq hfits limit
    rw [hvars, checkedSize_eq_ok hpositive hlimit hword] at hproduct
    refine ⟨_, hproduct, rfl, ?_, rfl, ?_⟩
    · exact (product_weights hcard hfits hproduct).2.1
    · intro a ha
      exact product_at? hcard hfits hproduct (hvars ▸ ha)
  · intro hlarge
    rw [product_eq hfits, hvars, checkedSize_eq_error hpositive hlarge]
    rfl
  · intro t ht v hv state hstate
    obtain ⟨hrestVars, hrestFits, _⟩ := ht.restrict hv hstate
    exact ⟨hrestVars, hrestFits, fun a => ht.restrict_at? hcard hv hstate,
      fun index => ht.restrict_reads hv hstate⟩
  · intro t ht v hv
    obtain ⟨hrestVars, hrestFits, _⟩ := ht.sumOut_slices hv (hcard v)
    exact ⟨hrestVars, hrestFits, fun a => ht.sumOut_at? hcard hv⟩
  · intro t ht u v s r hne hs hr
    exact restrict_comm hcard ht hne hs hr

end Values

/-- Two tables that share a variable, which is the first one of one and the last one of the other. -/
def crossedTables : List (DenseTable ℚ) :=
  [⟨[1, 2], [3, 2], #[1, 2, 3, 4, 5, 6]⟩, ⟨[0, 1], [2, 3], #[1, 0, 2, 0, 3, 0]⟩]

theorem crossedTables_consistent : Consistent crossedTables := by
  constructor <;> decide +kernel

/-- The state of the variable 0 is the last digit of a joint state, as it arrives last. -/
theorem crossedTables_index :
    Consistent crossedTables ∧
      ∃ joint, product crossedTables 12 = .ok joint ∧ joint.vars = [1, 2, 0] ∧
        joint.values.size = 12 ∧ joint.at? (fun v => if v = 0 then 0 else 1) = some 10 := by
  refine ⟨crossedTables_consistent, ?_⟩
  obtain ⟨_, _, hproduct, _⟩ := operations_index crossedTables_consistent 12
  obtain ⟨joint, hjoint, hvars, hfits, _, hvalue⟩ :=
    hproduct (by decide +kernel) (by decide +kernel)
  obtain ⟨factors, hfactors, hat⟩ := hvalue (fun v => if v = 0 then 0 else 1) (by decide +kernel)
  have hread : crossedTables.mapM (fun t => t.at? (fun v => if v = 0 then 0 else 1)) =
      some [5, 2] := by
    decide +kernel
  rw [hfactors, Option.some.injEq] at hread
  subst factors
  refine ⟨joint, hjoint, hvars.trans (by decide +kernel), ?_, hat.trans (by decide +kernel)⟩
  rw [hfits.size_eq, hvars]
  decide +kernel

end DenseTable

end DerivationBelief

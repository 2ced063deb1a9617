import DerivationBelief.Proofs.DenseTable
import DerivationBelief.Proofs.WordArithmetic
import Mathlib.Tactic

/-!
# Products of dense tables

While the odometer runs through the joint states of all variables, the place in each operand is the
sum of the digits times the strides of the operand.  For an operand that has all its variables among
them this is the number of its own joint state, so the product of the values is the product of the
weights.  What a wheel takes back it has added before, so no place gets below zero.
-/

namespace DerivationBelief

namespace Wheel

/-- The same turn, which gives nothing when a place would get below zero. -/
def turn? : List Wheel → List Nat → List Nat → Option (List Nat × List Nat)
  | wheel :: wheels, digit :: digits, places =>
      let moved := places.zipWith (· + ·) wheel.strides
      if digit + 1 < wheel.card then some ((digit + 1) :: digits, moved)
      else do
        let back ← (moved.zip wheel.strides).mapM (fun entry =>
          Word.sub? entry.1 (entry.2 * wheel.card))
        let (digits, places) ← turn? wheels digits back
        return (0 :: digits, places)
  | _, digits, places => some (digits, places)

theorem mapM_sub? {moved strides back : List Nat} {card : Nat}
    (hback : (moved.zip strides).mapM (fun entry => Word.sub? entry.1 (entry.2 * card)) =
      some back) : back = moved.zipWith (fun place stride => place - stride * card) strides := by
  rw [← List.map_uncurry_zip_eq_zipWith, eq_comm, ← List.forall₂_eq_eq_eq, List.forall₂_map_left_iff]
  refine (mapM_eq_some_iff.mp hback).imp ?_
  intro entry place hplace
  exact Word.eq_sub_of_sub? hplace

theorem turn_of_turn? {wheels : List Wheel} {digits places : List Nat}
    {next : List Nat × List Nat} (hturn : turn? wheels digits places = some next) :
    turn wheels digits places = next := by
  induction wheels generalizing digits places next with
  | nil => exact Option.some.inj hturn
  | cons wheel wheels ih =>
      cases digits with
      | nil => exact Option.some.inj hturn
      | cons digit digits =>
          unfold turn? at hturn
          unfold turn
          dsimp only at hturn ⊢
          split at hturn
          next hnext =>
            rw [if_pos hnext]
            exact Option.some.inj hturn
          next hwrap =>
            obtain ⟨back, hback, hturn⟩ := Option.bind_eq_some_iff.mp hturn
            obtain ⟨rest, hrest, hturn⟩ := Option.bind_eq_some_iff.mp hturn
            rw [if_neg hwrap, ← mapM_sub? hback, ih hrest]
            exact Option.some.inj hturn

end Wheel

namespace DenseTable

variable {α : Type} {card : Nat → Nat} {t : DenseTable α} {tables : List (DenseTable α)}

/-! ## The union of the variables -/

def unionVars (tables : List (DenseTable α)) : List Nat :=
  Arrival.distinct (tables.flatMap DenseTable.vars)

theorem unionVars_nodup (tables : List (DenseTable α)) : (unionVars tables).Nodup :=
  Arrival.distinct_nodup _

theorem mem_unionVars {v : Nat} : v ∈ unionVars tables ↔ ∃ t ∈ tables, v ∈ t.vars := by
  simp [unionVars]

theorem subset_unionVars (ht : t ∈ tables) : t.vars ⊆ unionVars tables :=
  fun _ hv => mem_unionVars.mpr ⟨t, ht, hv⟩

theorem hasKey_pairs {found : List Nat} {v : Nat} :
    Arrival.hasKey (found.map (fun u => (u, card u))) v = true ↔ v ∈ found := by
  unfold Arrival.hasKey
  rw [Option.isSome_iff_ne_none, Ne, Arrival.get?_eq_none_iff]
  simp

theorem unionScope_eq (htables : ∀ t ∈ tables, t.Fits card) :
    unionScope tables = (unionVars tables).map (fun v => (v, card v)) := by
  have hentries : tables.flatMap (fun t => t.vars.zip t.cards) =
      (tables.flatMap DenseTable.vars).map (fun v => (v, card v)) := by
    rw [List.map_flatMap]
    apply List.flatMap_congr
    intro t ht
    rw [(htables t ht).cards_eq, List.map_prod_left_eq_zip]
  have hfold : ∀ news found : List Nat, (news.map (fun v => (v, card v))).foldl
      (fun scope entry => if Arrival.hasKey scope entry.1 then scope else scope ++ [entry])
      (found.map (fun v => (v, card v))) =
        (Arrival.insertAll found news).map (fun v => (v, card v)) := by
    intro news
    induction news with
    | nil => exact fun found => rfl
    | cons v news ih =>
        intro found
        rw [List.map_cons, List.foldl_cons]
        change _ = (Arrival.insertAll (Arrival.insert found v) news).map _
        rw [← ih]
        congr 1
        unfold Arrival.insert
        simp only [hasKey_pairs]
        split <;> simp
  unfold unionScope
  rw [hentries]
  exact hfold _ []

theorem unionScope_cards (htables : ∀ t ∈ tables, t.Fits card) :
    (unionScope tables).map Prod.snd = (unionVars tables).map card := by
  rw [unionScope_eq htables, List.map_map]
  rfl

/-! ## Strides -/

theorem length_strides (cards : List Nat) (stride : Nat) :
    (strides cards stride).length = cards.length := by
  induction cards generalizing stride with
  | nil => rfl
  | cons card cards ih => simp [strides, ih]

theorem sum_strides (cards digits : List Nat) (stride : Nat) :
    (List.zipWith (· * ·) (strides cards stride) digits).sum =
      stride * jointIndex cards digits := by
  induction cards generalizing digits stride with
  | nil => simp [strides, jointIndex]
  | cons card cards ih =>
      cases digits with
      | nil => simp [strides, jointIndex]
      | cons digit digits =>
          rw [strides, List.zipWith_cons_cons, List.sum_cons, ih, jointIndex]
          ring

theorem strideOf_of_not_mem {v : Nat} (hv : v ∉ t.vars) : t.strideOf v = 0 := by
  unfold strideOf
  rw [Arrival.position?_eq_none_iff.mpr hv]

theorem Fits.map_strideOf (ht : t.Fits card) : t.vars.map t.strideOf = strides t.cards 1 := by
  have hlength : (strides t.cards 1).length = t.vars.length := by
    rw [length_strides, ht.cards_eq, List.length_map]
  apply List.ext_getElem
  · rw [List.length_map, hlength]
  · intro i hi hstride
    rw [List.length_map] at hi
    have hposition : Arrival.position? t.vars t.vars[i] = some i :=
      Arrival.position?_eq_some_iff.mpr ⟨List.getElem_mem hi, (ht.nodup.idxOf_getElem i hi).symm⟩
    rw [List.getElem_map, strideOf, hposition]
    simp [hstride]

/-- Digits times strides, over all variables, number the joint state of the table. -/
theorem Fits.place_eq (ht : t.Fits card) {vars : List Nat} (hnodup : vars.Nodup)
    (hsubset : t.vars ⊆ vars) (a : Assignment) :
    (vars.map (fun v => t.strideOf v * a v)).sum = jointIndex t.cards (t.vars.map a) := by
  have hown : (vars.map (fun v => t.strideOf v * a v)).sum =
      (t.vars.map (fun v => t.strideOf v * a v)).sum := by
    rw [← List.sum_toFinset _ hnodup, ← List.sum_toFinset _ ht.nodup]
    symm
    apply Finset.sum_subset
    · intro v hv
      rw [List.mem_toFinset] at hv ⊢
      exact hsubset hv
    · intro v _ hv
      rw [List.mem_toFinset] at hv
      rw [strideOf_of_not_mem hv, zero_mul]
  have hstrides := sum_strides t.cards (t.vars.map a) 1
  rw [← ht.map_strideOf, List.zipWith_map, List.zipWith_self, one_mul] at hstrides
  rw [hown, hstrides]

/-! ## The odometer -/

def placeOf (t : DenseTable α) (vars digits : List Nat) : Nat :=
  (List.zipWith (fun v digit => t.strideOf v * digit) vars digits).sum

def placesOf (tables : List (DenseTable α)) (vars digits : List Nat) : List Nat :=
  tables.map (fun t => t.placeOf vars digits)

theorem placeOf_cons (t : DenseTable α) (v : Nat) (vars : List Nat) (digit : Nat)
    (digits : List Nat) :
    t.placeOf (v :: vars) (digit :: digits) = t.strideOf v * digit + t.placeOf vars digits := by
  simp [placeOf]

theorem placeOf_map (t : DenseTable α) (vars : List Nat) (a : Assignment) :
    t.placeOf vars (vars.map a) = (vars.map (fun v => t.strideOf v * a v)).sum := by
  unfold placeOf
  rw [List.zipWith_map_right, List.zipWith_self]

theorem placesOf_forward (v : Nat) (vars : List Nat) (digit : Nat) (digits : List Nat) :
    List.zipWith (· + ·) (placesOf tables (v :: vars) (digit :: digits))
        (tables.map (fun t => t.strideOf v)) =
      placesOf tables (v :: vars) ((digit + 1) :: digits) := by
  unfold placesOf
  rw [List.zipWith_map, List.zipWith_self]
  apply List.map_congr_left
  intro t _
  rw [placeOf_cons, placeOf_cons]
  ring

theorem placesOf_back (v : Nat) (vars : List Nat) (digit : Nat) (digits : List Nat) :
    ((placesOf tables (v :: vars) (digit :: digits)).zip (tables.map (fun t => t.strideOf v))).mapM
        (fun entry => Word.sub? entry.1 (entry.2 * digit)) =
      some (placesOf tables vars digits) := by
  unfold placesOf
  rw [List.zip_map', List.mapM_map]
  apply mapM_eq_some_map
  intro t _
  rw [Function.comp_apply, placeOf_cons, Word.sub?_of_le (Nat.le_add_right _ _),
    Nat.add_sub_cancel_left]

theorem placesOf_zero (v : Nat) (vars : List Nat) (digits : List Nat) :
    placesOf tables (v :: vars) (0 :: digits) = placesOf tables vars digits := by
  unfold placesOf
  apply List.map_congr_left
  intro t _
  rw [placeOf_cons, mul_zero, zero_add]

/-- One turn moves every digit and every place to the next joint state. -/
theorem turn?_wheels (hcard : ∀ v, 0 < card v) (vars : List Nat) (index : Nat) :
    Wheel.turn? (wheels tables (vars.map (fun v => (v, card v))))
        (jointDigits (vars.map card) index)
        (placesOf tables vars (jointDigits (vars.map card) index)) =
      some (jointDigits (vars.map card) (index + 1),
        placesOf tables vars (jointDigits (vars.map card) (index + 1))) := by
  induction vars generalizing index with
  | nil => rfl
  | cons v vars ih =>
      rw [List.map_cons, List.map_cons, jointDigits_succ (hcard v), wheels, List.map_cons,
        jointDigits, Wheel.turn?]
      dsimp only
      rw [placesOf_forward]
      split
      next hnext => rfl
      next hwrap =>
        -- The wheel has added its stride once for each of its states, and takes that back.
        have hfull : index % card v + 1 = card v := by
          have hlt := Nat.mod_lt index (hcard v)
          omega
        have hrest := ih (index / card v)
        unfold wheels at hrest
        rw [hfull, placesOf_back, placesOf_zero, Option.bind_eq_bind, Option.bind_some, hrest]
        rfl

/-- The place of an operand is the number of its own joint state. -/
theorem Fits.placeOf_eq (ht : t.Fits card) {vars : List Nat} (hnodup : vars.Nodup)
    (hsubset : t.vars ⊆ vars) (a : Assignment) :
    t.placeOf vars (vars.map a) = jointIndex t.cards (t.vars.map a) :=
  (placeOf_map t vars a).trans (ht.place_eq hnodup hsubset a)

/-! ## The product -/

section Products

variable [Scalar α]

/-- The product after some steps. -/
def multiplied (tables : List (DenseTable α)) (count : Nat) : Multiplying α :=
  Nat.repeat (multiplyNext tables (wheels tables (unionScope tables))) count
    ⟨#[], (unionScope tables).map (fun _ => 0), tables.map (fun _ => 0)⟩

/-- After some steps the product holds the products of the values at the joint states so far. -/
theorem multiplied_eq (hcard : ∀ v, 0 < card v) (htables : ∀ t ∈ tables, t.Fits card)
    (count : Nat) :
    ∃ values : Array α,
      multiplied tables count =
        ⟨values, jointDigits ((unionVars tables).map card) count,
          placesOf tables (unionVars tables) (jointDigits ((unionVars tables).map card) count)⟩ ∧
      values.toList = (List.range count).map (fun index => Scalar.product (tables.map (fun t =>
        t.value (t.placeOf (unionVars tables)
          (jointDigits ((unionVars tables).map card) index))))) := by
  have hscope := unionScope_eq htables
  unfold multiplied
  induction count with
  | zero =>
      refine ⟨#[], ?_, rfl⟩
      rw [Nat.repeat, Multiplying.mk.injEq, jointDigits_zero, hscope, List.map_map, List.map_map]
      refine ⟨rfl, rfl, ?_⟩
      apply List.map_congr_left
      intro t _
      exact (by simp : 0 = _).trans (placeOf_map t _ (fun _ => 0)).symm
  | succ count ih =>
      obtain ⟨values, hstate, hvalues⟩ := ih
      refine ⟨values.push (valueAt tables (placesOf tables (unionVars tables)
        (jointDigits ((unionVars tables).map card) count))), ?_, ?_⟩
      · rw [Nat.repeat, hstate, multiplyNext, hscope]
        dsimp only
        rw [Wheel.turn_of_turn? (turn?_wheels hcard (unionVars tables) count)]
      · rw [Array.toList_push, hvalues, List.range_succ, List.map_append, List.map_singleton]
        congr 2
        unfold valueAt placesOf
        rw [List.zipWith_map_right, List.zipWith_self]

/-- The next step of the odometer, which gives nothing when an operand has no value at its place or
when a place would get below zero. -/
def multiplyNext? (tables : List (DenseTable α)) (wheels : List Wheel) (m : Multiplying α) :
    Option (Multiplying α) := do
  let factors ← (tables.zip m.places).mapM (fun operand => operand.1.values[operand.2]?)
  let (digits, places) ← Wheel.turn? wheels m.digits m.places
  return ⟨m.values.push (Scalar.product factors), digits, places⟩

/-- Every operand has a value at its place, and no place gets below zero. -/
theorem multiplyNext?_multiplied (hcard : ∀ v, 0 < card v) (htables : ∀ t ∈ tables, t.Fits card)
    (count : Nat) :
    multiplyNext? tables (wheels tables (unionScope tables)) (multiplied tables count) =
      some (multiplied tables (count + 1)) := by
  obtain ⟨values, hstate, _⟩ := multiplied_eq hcard htables count
  -- The digits are those of an assignment, under which the place of an operand is its joint state.
  set digits := jointDigits ((unionVars tables).map card) count with hdigits
  have hbelow : DigitsBelow ((unionVars tables).map card) digits := by
    apply jointDigits_below
    rw [List.forall_mem_map]
    exact fun v _ => hcard v
  obtain ⟨a, ha, hvalues⟩ := exists_assignment (unionVars_nodup tables) hbelow hcard
  have hreads : (tables.zip (placesOf tables (unionVars tables) digits)).mapM
      (fun operand => operand.1.values[operand.2]?) =
        some (tables.map (fun t => t.value (t.placeOf (unionVars tables) digits))) := by
    unfold placesOf
    rw [← List.map_prod_left_eq_zip, List.mapM_map]
    apply mapM_eq_some_map
    intro t ht
    apply getElem?_of_lt
    dsimp only
    rw [← hvalues, (htables t ht).placeOf_eq (unionVars_nodup tables) (subset_unionVars ht)]
    exact (htables t ht).index_lt ha
  have hturn := @turn?_wheels α card tables hcard (unionVars tables) count
  rw [← unionScope_eq htables, ← hdigits] at hturn
  have hnext : multiplied tables (count + 1) =
      multiplyNext tables (wheels tables (unionScope tables)) (multiplied tables count) := rfl
  rw [hnext, hstate, multiplyNext?, multiplyNext]
  dsimp only
  rw [hreads, hturn, Wheel.turn_of_turn? hturn, valueAt]
  unfold placesOf
  rw [List.zipWith_map_right, List.zipWith_self]
  rfl

theorem product_eq (htables : ∀ t ∈ tables, t.Fits card) (limit : Nat) :
    product tables limit = checkedSize ((unionVars tables).map card) limit >>= fun size =>
      .ok ⟨unionVars tables, (unionVars tables).map card, (multiplied tables size).values⟩ := by
  have hvars : (unionScope tables).map Prod.fst = unionVars tables := by
    rw [unionScope_eq htables, List.map_map]
    exact List.map_id _
  have hunfold : product tables limit =
      checkedSize ((unionScope tables).map Prod.snd) limit >>= fun size =>
        .ok ⟨(unionScope tables).map Prod.fst, (unionScope tables).map Prod.snd,
          (multiplied tables size).values⟩ := rfl
  rw [hunfold, unionScope_cards htables, hvars]

/-- The weights of a product are the products of the weights. -/
theorem product_weights (hcard : ∀ v, 0 < card v) (htables : ∀ t ∈ tables, t.Fits card) {limit : Nat}
    {joint : DenseTable α} (hjoint : product tables limit = .ok joint) :
    joint.vars = unionVars tables ∧ joint.Fits card ∧ ∀ a, InRange card a →
      joint.weightAt a = Scalar.product (tables.map (fun t => t.weightAt a)) := by
  rw [product_eq htables] at hjoint
  obtain ⟨size, hsize, hjoint⟩ := bind_eq_ok_iff.mp hjoint
  have hproduct := checkedSize_ok hsize
  cases hjoint
  obtain ⟨values, hstate, hvalues⟩ := multiplied_eq hcard htables size
  rw [hstate]
  refine ⟨rfl, ⟨unionVars_nodup tables, rfl, ?_⟩, ?_⟩
  · rw [← Array.length_toList, hvalues, List.length_map, List.length_range, hproduct]
  · intro a ha
    have hbelow := digitsBelow_of_inRange ha (unionVars tables)
    have hindex := jointIndex_lt hbelow
    rw [← hproduct] at hindex
    change values.getD (jointIndex _ _) 0 = _
    rw [Array.getD_eq_getD_getElem?, ← Array.getElem?_toList, hvalues, List.getElem?_map,
      List.getElem?_range hindex, Option.map_some, Option.getD_some,
      jointDigits_jointIndex hbelow]
    congr 1
    apply List.map_congr_left
    intro t ht
    rw [(htables t ht).placeOf_eq (unionVars_nodup tables) (subset_unionVars ht)]
    rfl

theorem product_ok {tables : List (DenseTable ℚ)} (hcard : ∀ v, 0 < card v)
    (htables : ∀ t ∈ tables, t.Fits card) {limit : Nat} {joint : DenseTable ℚ}
    (hjoint : product tables limit = .ok joint) :
    joint.vars = unionVars tables ∧ joint.Fits card ∧ ∀ a, InRange card a →
      joint.weightAt a = (tables.map (fun t => t.weightAt a)).prod := by
  simpa only [Scalar.product_eq] using product_weights hcard htables hjoint

theorem product_error {limit : Nat} {fault : SolverFault}
    (hfault : product tables limit = .error fault) : RefusedAt limit fault := by
  rcases bind_eq_error_iff.mp hfault with hsize | ⟨size, _, hstate⟩
  · exact checkedSize_error hsize
  · cases hstate

end Products

end DenseTable

end DerivationBelief

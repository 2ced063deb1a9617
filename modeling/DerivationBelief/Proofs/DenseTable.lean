import DerivationBelief.DenseTable
import DerivationBelief.Proofs.ArrivalOrder
import DerivationBelief.Proofs.FactorWeights
import DerivationBelief.Proofs.FaultyRuns
import DerivationBelief.Proofs.StateSums
import Mathlib.Tactic

/-!
# What dense tables store

A table fits some cardinalities when its variables differ and it has one value for each joint state.
The table of a factor has the weights of the factor, a slice has the weights of the table with the
variable set to the state, and summing out adds up the slices.
-/

namespace DerivationBelief

/-! ## Sizes -/

theorem jointStates_fold (cards : List Nat) (count : Nat) {size : Nat}
    (hsize : cards.foldl (fun count card => count.bind (fun n =>
      if n * card < Text.word64 then some (n * card) else none)) (some count) = some size) :
    size = count * cards.prod := by
  induction cards generalizing count with
  | nil =>
      rw [List.foldl_nil, Option.some.injEq] at hsize
      simp [hsize]
  | cons card cards ih =>
      rw [List.foldl_cons, Option.bind_some] at hsize
      split at hsize
      · rw [ih _ hsize, List.prod_cons, mul_assoc]
      · rw [List.foldl_fixed' (fun _ => rfl)] at hsize
        cases hsize

theorem checkedSize_ok {cards : List Nat} {limit size : Nat}
    (hsize : checkedSize cards limit = .ok size) : size = cards.prod := by
  unfold checkedSize at hsize
  dsimp only at hsize
  split at hsize
  · cases hsize
  · rename_i hlimit
    rw [Except.ok.injEq] at hsize
    subst size
    unfold jointStates at hlimit ⊢
    cases hfold : cards.foldl (fun count card => count.bind (fun n =>
        if n * card < Text.word64 then some (n * card) else none)) (some 1) with
    | none =>
        rw [hfold, Option.getD_none] at hlimit
        omega
    | some size =>
        rw [Option.getD_some, jointStates_fold cards 1 hfold, one_mul]

/-- A table of so many entries is beyond a limit, or its size does not fit 64 bits. -/
def Oversized (size limit : Nat) : Prop :=
  limit < size ∨ Text.word64 ≤ size + 1

/-- A table was refused because it is too large for a limit. -/
def RefusedAt (limit : Nat) (fault : SolverFault) : Prop :=
  ∃ size, fault = .tableTooLarge size limit ∧ Oversized size limit

theorem checkedSize_error {cards : List Nat} {limit : Nat} {fault : SolverFault}
    (hfault : checkedSize cards limit = .error fault) : RefusedAt limit fault := by
  unfold checkedSize at hfault
  dsimp only at hfault
  split at hfault
  next hlarge =>
    rw [Except.error.injEq] at hfault
    exact ⟨jointStates cards, hfault.symm, hlarge⟩
  next => cases hfault

theorem jointStates_foldl_of_pos {cards : List Nat} (hpositive : ∀ card ∈ cards, 0 < card) {count : Nat}
    (hcount : count < Text.word64) :
    cards.foldl (fun count card => count.bind (fun n =>
        if n * card < Text.word64 then some (n * card) else none)) (some count) =
      if count * cards.prod < Text.word64 then some (count * cards.prod) else none := by
  induction cards generalizing count with
  | nil => rw [List.foldl_nil, List.prod_nil, mul_one, if_pos hcount]
  | cons card cards ih =>
      rw [List.forall_mem_cons] at hpositive
      rw [List.foldl_cons, Option.bind_some, List.prod_cons, ← mul_assoc]
      by_cases hfits : count * card < Text.word64
      · rw [if_pos hfits, ih hpositive.2 hfits]
      · have hrest : 0 < cards.prod := List.prod_pos_iff_forall_pos_nat.mpr hpositive.2
        have hlarge : ¬ count * card * cards.prod < Text.word64 := by
          have hle := Nat.le_mul_of_pos_right (count * card) hrest
          omega
        rw [if_neg hfits, if_neg hlarge, List.foldl_fixed' (fun _ => rfl)]

theorem jointStates_eq {cards : List Nat} (hpositive : ∀ card ∈ cards, 0 < card) :
    jointStates cards = min cards.prod (Text.word64 - 1) := by
  have hword : 1 < Text.word64 := by decide
  unfold jointStates
  rw [jointStates_foldl_of_pos hpositive hword, one_mul]
  split
  · rw [Option.getD_some]
    omega
  · rw [Option.getD_none]
    omega

theorem checkedSize_eq_ok {cards : List Nat} (hpositive : ∀ card ∈ cards, 0 < card) {limit : Nat}
    (hlimit : cards.prod ≤ limit) (hword : cards.prod + 1 < Text.word64) :
    checkedSize cards limit = .ok cards.prod := by
  have hsize : jointStates cards = cards.prod := by
    rw [jointStates_eq hpositive]
    omega
  unfold checkedSize
  dsimp only
  rw [hsize, if_neg (by omega)]

theorem checkedSize_eq_error {cards : List Nat} (hpositive : ∀ card ∈ cards, 0 < card) {limit : Nat}
    (hlarge : limit < cards.prod ∨ Text.word64 ≤ cards.prod + 1) :
    checkedSize cards limit =
      .error (.tableTooLarge (min cards.prod (Text.word64 - 1)) limit) := by
  unfold checkedSize
  dsimp only
  rw [jointStates_eq hpositive, if_pos (by omega)]

/-! ## Weights of tables -/

namespace DenseTable

variable {α : Type}

/-- The variables differ and every joint state has its value. -/
structure Fits (card : Nat → Nat) (t : DenseTable α) : Prop where
  nodup : t.vars.Nodup
  cards_eq : t.cards = t.vars.map card
  size_eq : t.values.size = (t.vars.map card).prod

variable [Scalar α] {card : Nat → Nat} {t other : DenseTable α}

def weightAt (t : DenseTable α) (a : Assignment) : α :=
  t.value (jointIndex t.cards (t.vars.map a))

theorem digitsBelow_of_inRange {a : Assignment} (ha : InRange card a) (vars : List Nat) :
    DigitsBelow (vars.map card) (vars.map a) := by
  unfold DigitsBelow
  rw [List.forall₂_map_left_iff, List.forall₂_map_right_iff, List.forall₂_same]
  intro v _
  exact ha v

omit [Scalar α] in
theorem Fits.index_lt (ht : t.Fits card) {a : Assignment} (ha : InRange card a) :
    jointIndex t.cards (t.vars.map a) < t.values.size := by
  rw [ht.cards_eq, ht.size_eq]
  exact jointIndex_lt (digitsBelow_of_inRange ha t.vars)

theorem getElem?_of_lt {place : Nat} (hplace : place < t.values.size) :
    t.values[place]? = some (t.value place) := by
  rw [value, Array.getD_eq_getD_getElem?, Array.getElem?_eq_getElem hplace, Option.getD_some]

theorem weightAt_dependsOn (t : DenseTable α) : DependsOn t.weightAt {v | v ∈ t.vars} := by
  intro a b hab
  unfold weightAt
  rw [List.map_congr_left (fun v hv => hab v hv)]

/-- Every list of digits is what some assignment gives to the variables. -/
theorem exists_assignment {vars : List Nat} (hnodup : vars.Nodup) {digits : List Nat}
    (hdigits : DigitsBelow (vars.map card) digits) (hcard : ∀ v, 0 < card v) :
    ∃ a, InRange card a ∧ vars.map a = digits := by
  induction vars generalizing digits with
  | nil =>
      cases hdigits
      exact ⟨fun _ => 0, hcard, rfl⟩
  | cons v vars ih =>
      rw [List.nodup_cons] at hnodup
      rw [List.map_cons] at hdigits
      cases hdigits with
      | @cons _ digit _ digits hdigit hrest =>
          obtain ⟨a, ha, hvalues⟩ := ih hnodup.2 hrest
          refine ⟨Function.update a v digit, ha.update hdigit, ?_⟩
          have hsame : vars.map (Function.update a v digit) = vars.map a := by
            apply List.map_congr_left
            intro u hu
            apply Function.update_of_ne
            rintro rfl
            exact hnodup.1 hu
          rw [List.map_cons, Function.update_self, hsame, hvalues]

/-- Tables over the same variables are equal when they have the same weights. -/
theorem Fits.ext (hcard : ∀ v, 0 < card v) (ht : t.Fits card) (hother : other.Fits card)
    (hvars : t.vars = other.vars)
    (hweight : ∀ a, InRange card a → t.weightAt a = other.weightAt a) : t = other := by
  have hcards : t.cards = other.cards := by
    rw [ht.cards_eq, hother.cards_eq, hvars]
  have hsize : t.values.size = other.values.size := by
    rw [ht.size_eq, hother.size_eq, hvars]
  have hvalues : t.values = other.values := by
    apply Array.ext hsize
    intro index hindex hindexOther
    have hlt : index < t.cards.prod := by
      rw [ht.cards_eq, ← ht.size_eq]
      exact hindex
    have hpositive : ∀ c ∈ t.cards, 0 < c := by
      rw [ht.cards_eq, List.forall_mem_map]
      exact fun v _ => hcard v
    have hdigits := jointDigits_below hpositive index
    rw [ht.cards_eq] at hdigits
    obtain ⟨a, ha, hvaluesOf⟩ := exists_assignment ht.nodup hdigits hcard
    have hplace : jointIndex t.cards (t.vars.map a) = index := by
      rw [hvaluesOf, ← ht.cards_eq]
      exact jointIndex_jointDigits hlt
    have hsame := hweight a ha
    unfold weightAt value at hsame
    rw [← hvars, ← hcards, hplace] at hsame
    simpa [Array.getD_eq_getD_getElem?, hindex, hindexOther] using hsame
  cases t
  cases other
  simp only at hvars hcards hvalues
  rw [hvars, hcards, hvalues]

/-! ## Tables over few variables -/

section Exact

variable {t : DenseTable ℚ}

theorem total_eq (t : DenseTable ℚ) : t.total = t.values.toList.sum := by
  unfold total
  rw [← Array.foldl_toList]
  exact Scalar.sum_eq _

theorem Fits.values_of_none (ht : t.Fits card) (hvars : t.vars = []) (a : Assignment) :
    t.values.toList = [t.weightAt a] := by
  have hsize := ht.size_eq
  rw [hvars, List.map_nil, List.prod_nil] at hsize
  obtain ⟨x, hx⟩ := Array.size_eq_one_iff.mp hsize
  have hweight : t.weightAt a = x := by
    unfold weightAt value
    rw [hvars, hx, List.map_nil]
    cases t.cards <;> rfl
  rw [hweight, hx]

theorem Fits.values_of_one (ht : t.Fits card) {v : Nat} (hvars : t.vars = [v]) (a : Assignment) :
    t.values.toList =
      (List.range (card v)).map (fun s => t.weightAt (Function.update a v s)) := by
  have hsize := ht.size_eq
  have hcards := ht.cards_eq
  rw [hvars, List.map_singleton] at hsize hcards
  rw [List.prod_singleton] at hsize
  apply List.ext_getElem
  · simp [hsize]
  · intro s hs hrange
    rw [Array.length_toList] at hs
    have hindex : jointIndex t.cards (t.vars.map (Function.update a v s)) = s := by
      rw [hcards, hvars, List.map_singleton, Function.update_self]
      simp [jointIndex]
    rw [List.getElem_map, List.getElem_range, weightAt, hindex, value]
    simp [hs]

/-! ## The table of a factor -/

theorem fill_ok {size : Nat} {values filled : Array ℚ} {entries : List (Nat × ℚ)}
    (hsize : values.size = size) (hfilled : fill size values entries = .ok filled) :
    filled.size = size ∧ ∀ i < size, filled.getD i 0 =
      entries.foldl (fun weight entry => if entry.1 = i then entry.2 else weight)
        (values.getD i 0) := by
  induction entries generalizing values with
  | nil =>
      rw [fill, Except.ok.injEq] at hfilled
      subst filled
      exact ⟨hsize, fun i _ => rfl⟩
  | cons entry entries ih =>
      rw [fill] at hfilled
      split at hfilled
      · rename_i hentry
        obtain ⟨hfilledSize, hvalues⟩ := ih (by simpa using hsize) hfilled
        refine ⟨hfilledSize, ?_⟩
        intro i hi
        rw [hvalues i hi, List.foldl_cons]
        congr 1
        by_cases hstate : entry.1 = i
        · subst i
          simp [hsize, hentry]
        · simp [Array.getD_eq_getD_getElem?, hstate]
      · cases hfilled

theorem fill_zeros_ok {size : Nat} {filled : Array ℚ} {entries : List (Nat × ℚ)}
    (hfilled : fill size (Array.replicate size 0) entries = .ok filled) :
    filled.size = size ∧ ∀ i < size, filled.getD i 0 = entryWeight entries i := by
  obtain ⟨hsize, hvalues⟩ := fill_ok (by simp) hfilled
  refine ⟨hsize, ?_⟩
  intro i hi
  have hzero : (Array.replicate size (0 : ℚ)).getD i 0 = 0 := by
    simp [Array.getD_eq_getD_getElem?, hi]
  rw [hvalues i hi, hzero]
  rfl

theorem ofFactor_ok {limit number : Nat} {label : String} {f : Factor Nat ℚ}
    (hnodup : f.vars.Nodup) (hcards : f.cards = f.vars.map card)
    (hload : ofFactor limit label number f = .ok t) :
    t.vars = f.vars ∧ t.Fits card ∧ ∀ a, InRange card a → t.weightAt a = f.weightAt a := by
  obtain ⟨size, hsize, hload⟩ := bind_eq_ok_iff.mp hload
  have hproduct := checkedSize_ok hsize
  split at hload
  · rename_i values hfill
    cases hload
    obtain ⟨hvaluesSize, hvalues⟩ := fill_zeros_ok hfill
    refine ⟨rfl, ⟨hnodup, hcards, by rw [hvaluesSize, hproduct, hcards]⟩, ?_⟩
    intro a ha
    have hindex : jointIndex f.cards (f.vars.map a) < size := by
      rw [hproduct, hcards]
      exact jointIndex_lt (digitsBelow_of_inRange ha f.vars)
    exact hvalues _ hindex
  · cases hload

end Exact

/-! ## Slices -/

theorem restrict_of_not_mem {v : Nat} (hv : v ∉ t.vars) (state : Nat) :
    t.restrict v state = t := by
  unfold restrict
  rw [Arrival.position?_eq_none_iff.mpr hv]

theorem restrict_vars (t : DenseTable α) (v state : Nat) :
    (t.restrict v state).vars = t.vars.erase v := by
  by_cases hv : v ∈ t.vars
  · unfold restrict
    rw [Arrival.position?_eq_some_iff.mpr ⟨hv, rfl⟩]
    exact List.eraseIdx_idxOf_eq_erase v t.vars
  · rw [restrict_of_not_mem hv, List.erase_of_not_mem hv]

omit [Scalar α] in
theorem Fits.split_cards (ht : t.Fits card) {v : Nat} {pre post : List Nat}
    (hvars : t.vars = pre ++ v :: post) :
    t.cards.getD pre.length 1 = card v ∧
      (t.cards.take pre.length).foldl (· * ·) 1 = (pre.map card).prod := by
  rw [ht.cards_eq, hvars, List.map_append, List.map_cons, ← List.prod_eq_foldl_nat]
  constructor
  · simp
  · rw [List.take_left' (List.length_map _)]

theorem restrict_split (state : Nat) {v : Nat} {pre post : List Nat} (hv : v ∉ pre) (ht : t.Fits card)
    (hvars : t.vars = pre ++ v :: post) (hcard : 0 < card v) :
    (t.restrict v state).vars = pre ++ post ∧
      (t.restrict v state).cards = (pre ++ post).map card ∧
      (t.restrict v state).values.size = (pre.map card).prod * (post.map card).prod ∧
      ∀ index < (pre.map card).prod * (post.map card).prod, (t.restrict v state).value index =
        t.value (index % (pre.map card).prod +
          (pre.map card).prod * (state + card v * (index / (pre.map card).prod))) := by
  have hposition : Arrival.position? t.vars v = some pre.length := by
    rw [Arrival.position?_eq_some_iff, hvars]
    refine ⟨by simp, ?_⟩
    rw [List.idxOf_append_of_notMem hv, List.idxOf_cons_self, add_zero]
  obtain ⟨hcardAt, hstride⟩ := ht.split_cards hvars
  have hsize : t.values.size / card v = (pre.map card).prod * (post.map card).prod := by
    rw [ht.size_eq, hvars, List.map_append, List.map_cons, List.prod_append, List.prod_cons,
      mul_left_comm, Nat.mul_div_cancel_left _ hcard]
  unfold restrict
  rw [hposition]
  dsimp only
  rw [hcardAt, hstride]
  refine ⟨?_, ?_, ?_, ?_⟩
  · rw [hvars, List.eraseIdx_append_of_length_le (le_refl _), Nat.sub_self, List.eraseIdx_cons_zero]
  · rw [ht.cards_eq, hvars, List.map_append, List.map_append, List.map_cons,
      List.eraseIdx_append_of_length_le (by simp), List.length_map, Nat.sub_self,
      List.eraseIdx_cons_zero]
  · rw [Array.size_ofFn, hsize]
  · intro index hindex
    rw [← hsize] at hindex
    simp [value, Array.getD_eq_getD_getElem?, hindex]

theorem Fits.restrict (ht : t.Fits card) {v state : Nat} (hv : v ∈ t.vars)
    (hstate : state < card v) :
    (t.restrict v state).vars = t.vars.erase v ∧ (t.restrict v state).Fits card ∧
      ∀ a, InRange card a →
        (t.restrict v state).weightAt a = t.weightAt (Function.update a v state) := by
  obtain ⟨pre, post, hvars⟩ := List.append_of_mem hv
  have hnodup := ht.nodup
  rw [hvars, List.nodup_middle, List.nodup_cons, List.mem_append, not_or] at hnodup
  obtain ⟨⟨hpre, hpost⟩, hrest⟩ := hnodup
  obtain ⟨hrestVars, hrestCards, hrestSize, hvalue⟩ :=
    restrict_split state hpre ht hvars (Nat.zero_lt_of_lt hstate)
  refine ⟨?_, ⟨?_, ?_, ?_⟩, ?_⟩
  · rw [hrestVars, hvars, List.erase_append_right _ hpre, List.erase_cons_head]
  · rw [hrestVars]
    exact hrest
  · rw [hrestCards, hrestVars]
  · rw [hrestSize, hrestVars, List.map_append, List.prod_append]
  · intro a ha
    have hlow := jointIndex_lt (digitsBelow_of_inRange ha pre)
    have hhigh := jointIndex_lt (digitsBelow_of_inRange ha post)
    have hindex := jointIndex_lt (digitsBelow_of_inRange ha (pre ++ post))
    rw [List.map_append, List.map_append, List.prod_append] at hindex
    have hlength : (pre.map card).length = (pre.map a).length := by
      rw [List.length_map, List.length_map]
    have hsplit := jointIndex_append hlength (post.map card) (post.map a)
    have hsame : ∀ u ∈ pre ++ post, Function.update a v state u = a u := by
      intro u hu
      apply Function.update_of_ne
      rintro rfl
      rcases List.mem_append.mp hu with hleft | hright
      · exact hpre hleft
      · exact hpost hright
    unfold weightAt
    rw [hrestCards, hrestVars, List.map_append, List.map_append, hvalue _ hindex, hsplit,
      Nat.add_mul_mod_self_left, Nat.mod_eq_of_lt hlow,
      Nat.add_mul_div_left _ _ (Nat.zero_lt_of_lt hlow), Nat.div_eq_of_lt hlow, zero_add,
      ht.cards_eq, hvars, List.map_append, List.map_append, List.map_cons, List.map_cons,
      jointIndex_append (by simp), Function.update_self,
      List.map_congr_left (fun u hu => hsame u (List.mem_append_left _ hu)),
      List.map_congr_left (fun u hu => hsame u (List.mem_append_right _ hu))]
    rfl

/-! ## Sums of slices -/

theorem Fits.addValues (ht : t.Fits card) (hother : other.Fits card) (hvars : other.vars = t.vars) :
    (t.addValues other).Fits card ∧
      ∀ a, InRange card a → (t.addValues other).weightAt a = t.weightAt a + other.weightAt a := by
  have hsize : other.values.size = t.values.size := by
    rw [hother.size_eq, ht.size_eq, hvars]
  constructor
  · refine ⟨ht.nodup, ht.cards_eq, ?_⟩
    unfold DenseTable.addValues
    rw [Array.size_zipWith, hsize, min_self]
    exact ht.size_eq
  · intro a ha
    have hindex := ht.index_lt ha
    have hotherIndex := hindex
    rw [← hsize] at hotherIndex
    have hcards : other.cards = t.cards := by
      rw [hother.cards_eq, ht.cards_eq, hvars]
    unfold weightAt DenseTable.addValues value
    rw [hvars, hcards]
    simp [Array.getD_eq_getD_getElem?, hindex, hotherIndex]

/-- The sum from the left of the first values of a function, which starts with the value at zero. -/
def sumFrom (f : Nat → α) (more : Nat) : α :=
  ((List.range more).map (· + 1)).foldl (fun sum state => sum + f state) (f 0)

theorem sumFrom_succ (f : Nat → α) (more : Nat) :
    sumFrom f (more + 1) = sumFrom f more + f (more + 1) := by
  unfold sumFrom
  rw [List.range_succ, List.map_append, List.foldl_append]
  rfl

theorem sumFrom_eq_sum (f : Nat → ℚ) (more : Nat) :
    sumFrom f more = ∑ state ∈ Finset.range (more + 1), f state := by
  induction more with
  | zero => simp [sumFrom]
  | succ more ih => rw [sumFrom_succ, ih, Finset.sum_range_succ _ (more + 1)]

theorem Fits.addSlices (ht : t.Fits card) {v : Nat} (hv : v ∈ t.vars) {more : Nat}
    (hmore : more < card v) {slices : DenseTable α}
    (hslices : ((List.range more).map (· + 1)).foldl
      (fun sum state => sum.addValues (t.restrict v state)) (t.restrict v 0) = slices) :
    slices.vars = t.vars.erase v ∧ slices.Fits card ∧ ∀ a, InRange card a →
      slices.weightAt a = sumFrom (fun state => t.weightAt (Function.update a v state)) more := by
  induction more generalizing slices with
  | zero =>
      subst slices
      exact ht.restrict hv hmore
  | succ more ih =>
      obtain ⟨hsumVars, hsumFits, hsumWeight⟩ := ih (Nat.lt_of_succ_lt hmore) rfl
      obtain ⟨hvars, hfits, hweight⟩ := ht.restrict hv hmore
      rw [List.range_succ, List.map_append, List.foldl_append] at hslices
      subst slices
      obtain ⟨haddFits, haddWeight⟩ := hsumFits.addValues hfits (hvars.trans hsumVars.symm)
      refine ⟨hsumVars, haddFits, ?_⟩
      intro a ha
      rw [sumFrom_succ, ← hsumWeight a ha, ← hweight a ha]
      exact haddWeight a ha

/-- Summing out a variable adds up its slices, the first one first. -/
theorem Fits.sumOut_slices (ht : t.Fits card) {v : Nat} (hv : v ∈ t.vars) (hcard : 0 < card v) :
    (t.sumOut v).vars = t.vars.erase v ∧ (t.sumOut v).Fits card ∧ ∀ a, InRange card a →
      (t.sumOut v).weightAt a =
        sumFrom (fun state => t.weightAt (Function.update a v state)) (card v - 1) := by
  have hposition : Arrival.position? t.vars v = some (t.vars.idxOf v) :=
    Arrival.position?_eq_some_iff.mpr ⟨hv, rfl⟩
  have hcardAt : t.cards.getD (t.vars.idxOf v) 1 = card v := by
    rw [ht.cards_eq]
    simp [List.idxOf_lt_length_of_mem hv]
  apply ht.addSlices hv (Nat.sub_lt hcard Nat.one_pos)
  unfold DenseTable.sumOut
  rw [hposition]
  dsimp only
  rw [hcardAt]

/-- Summing out a variable adds up the weights of its states. -/
theorem Fits.sumOut {t : DenseTable ℚ} (ht : t.Fits card) {v : Nat} (hv : v ∈ t.vars)
    (hcard : 0 < card v) :
    (t.sumOut v).vars = t.vars.erase v ∧ (t.sumOut v).Fits card ∧ ∀ a, InRange card a →
      (t.sumOut v).weightAt a = sumState card v t.weightAt a := by
  obtain ⟨hvars, hfits, hweight⟩ := ht.sumOut_slices hv hcard
  refine ⟨hvars, hfits, fun a ha => ?_⟩
  rw [hweight a ha, sumFrom_eq_sum, Nat.sub_add_cancel hcard]
  rfl

end DenseTable

end DerivationBelief

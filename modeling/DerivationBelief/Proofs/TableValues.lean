import DerivationBelief.Proofs.Elimination
import Mathlib.Tactic

/-!
# Which values tables have

Tables without negative values are restricted, multiplied and summed to tables without negative
values, so no belief has a negative share.  A table of zeros makes every table that it goes into a
table of zeros, so no variable has a belief.  Both hold of tables of any size and under any
evidence.
-/

namespace DerivationBelief

theorem exists_of_mem_zipWith {α β γ : Type} {f : α → β → γ} {as : List α} {bs : List β} {c : γ}
    (hc : c ∈ as.zipWith f bs) : ∃ a ∈ as, ∃ b ∈ bs, c = f a b := by
  rw [← List.map_uncurry_zip_eq_zipWith, List.mem_map] at hc
  obtain ⟨⟨a, b⟩, hmem, heq⟩ := hc
  obtain ⟨ha, hb⟩ := List.of_mem_zip hmem
  exact ⟨a, ha, b, hb, heq.symm⟩

namespace DenseTable

/-- All values are in a set that sums stay in. -/
def Within (values : AddSubmonoid ℚ) (t : DenseTable ℚ) : Prop :=
  ∀ place, t.value place ∈ values

def Nonnegative (t : DenseTable ℚ) : Prop :=
  t.Within (AddSubmonoid.nonneg ℚ)

def Vanishing (t : DenseTable ℚ) : Prop :=
  t.Within ⊥

variable {values : AddSubmonoid ℚ} {t other : DenseTable ℚ} {tables left : List (DenseTable ℚ)}

theorem within_iff : t.Within values ↔ ∀ x ∈ t.values.toList, x ∈ values := by
  have hvalue : ∀ place, t.value place = (t.values.toList[place]?).getD 0 := by
    intro place
    rw [value, Array.getD_eq_getD_getElem?, Array.getElem?_toList]
  unfold Within
  constructor
  · intro hwithin x hx
    obtain ⟨place, hplace⟩ := List.mem_iff_getElem?.mp hx
    have hin := hwithin place
    rw [hvalue, hplace] at hin
    exact hin
  · intro hall place
    rw [hvalue]
    cases hget : t.values.toList[place]? with
    | none => exact values.zero_mem
    | some x => exact hall x (List.mem_of_getElem? hget)

theorem nonnegative_iff : t.Nonnegative ↔ ∀ x ∈ t.values.toList, 0 ≤ x :=
  within_iff

/-! ## Slices and sums -/

theorem Within.restrict (ht : t.Within values) (v state : Nat) :
    (t.restrict v state).Within values := by
  unfold DenseTable.restrict
  cases Arrival.position? t.vars v with
  | none => exact ht
  | some position =>
      rw [within_iff]
      intro x hx
      simp only [Array.toList_ofFn, List.mem_ofFn] at hx
      cases hx with
      | intro place hplace =>
          rw [← hplace]
          exact ht _

theorem Within.addValues (ht : t.Within values) (hother : other.Within values) :
    (t.addValues other).Within values := by
  rw [within_iff] at ht hother ⊢
  intro x hx
  rw [DenseTable.addValues, Array.toList_zipWith] at hx
  obtain ⟨a, ha, b, hb, heq⟩ := exists_of_mem_zipWith hx
  rw [heq]
  exact values.add_mem (ht a ha) (hother b hb)

theorem Within.sumOut (ht : t.Within values) (v : Nat) : (t.sumOut v).Within values := by
  have hslices : ∀ (slices : List Nat) (sum : DenseTable ℚ), sum.Within values →
      (slices.foldl (fun sum state => sum.addValues (t.restrict v state)) sum).Within values := by
    intro slices
    induction slices with
    | nil => exact fun _ hsum => hsum
    | cons slice slices ih =>
        intro sum hsum
        exact ih _ (hsum.addValues (ht.restrict v slice))
  unfold DenseTable.sumOut
  cases Arrival.position? t.vars v with
  | none => exact ht
  | some position => exact hslices _ _ (ht.restrict v 0)

theorem Within.clamp (ht : t.Within values) (evidence : Evidence) :
    (TableNetwork.clamp evidence t).Within values := by
  have hentries : ∀ (entries : Evidence) (t : DenseTable ℚ), t.Within values →
      (entries.foldl (fun table entry => table.restrict entry.1 entry.2) t).Within values := by
    intro entries
    induction entries with
    | nil => exact fun _ ht => ht
    | cons entry entries ih =>
        intro t ht
        exact ih _ (ht.restrict entry.1 entry.2)
  exact hentries _ t ht

/-! ## Products -/

theorem turn_places_length {count : Nat} {wheels : List Wheel}
    (hwheels : ∀ wheel ∈ wheels, wheel.strides.length = count) (digits : List Nat)
    {places : List Nat} (hplaces : places.length = count) :
    (Wheel.turn wheels digits places).2.length = count := by
  induction wheels generalizing digits places with
  | nil => exact hplaces
  | cons wheel wheels ih =>
      rw [List.forall_mem_cons] at hwheels
      cases digits with
      | nil => exact hplaces
      | cons digit digits =>
          unfold Wheel.turn
          dsimp only
          split
          next => simp [hplaces, hwheels.1]
          next =>
            apply ih hwheels.2
            simp [hplaces, hwheels.1]

/-- The values so far are in a set, and there is a place in each table. -/
structure Multiplying.Within (values : AddSubmonoid ℚ) (tables : List (DenseTable ℚ))
    (m : Multiplying ℚ) : Prop where
  values_mem : ∀ x ∈ m.values.toList, x ∈ values
  places_length : m.places.length = tables.length

theorem Multiplying.Within.next {m : Multiplying ℚ} (hm : m.Within values tables)
    (hvalue : ∀ places : List Nat, places.length = tables.length → valueAt tables places ∈ values)
    (scope : List (Nat × Nat)) :
    (multiplyNext tables (wheels tables scope) m).Within values tables := by
  have hwheels : ∀ wheel ∈ wheels tables scope, wheel.strides.length = tables.length := by
    unfold wheels
    rw [List.forall_mem_map]
    intro entry _
    exact List.length_map _
  unfold multiplyNext
  constructor
  case values_mem =>
    rw [Array.toList_push, List.forall_mem_append, List.forall_mem_singleton]
    exact ⟨hm.values_mem, hvalue _ hm.places_length⟩
  case places_length => exact turn_places_length hwheels _ hm.places_length

/-- Every value of a product has one place in each table. -/
theorem product_within {limit : Nat}
    (hvalue : ∀ places : List Nat, places.length = tables.length → valueAt tables places ∈ values)
    {joint : DenseTable ℚ} (hjoint : product tables limit = .ok joint) : joint.Within values := by
  obtain ⟨size, _, hjoint⟩ := bind_eq_ok_iff.mp hjoint
  cases hjoint
  have hsteps : ∀ count : Nat, Multiplying.Within values tables
      (Nat.repeat (multiplyNext tables (wheels tables (unionScope tables))) count
        ⟨#[], (unionScope tables).map (fun _ => 0), tables.map (fun _ => 0)⟩) := by
    intro count
    induction count with
    | zero => exact ⟨fun x hx => absurd hx List.not_mem_nil, List.length_map _⟩
    | succ count ih => exact ih.next hvalue _
  exact within_iff.mpr (hsteps size).values_mem

theorem product_nonnegative {limit : Nat} (htables : ∀ t ∈ tables, t.Nonnegative)
    {joint : DenseTable ℚ} (hjoint : product tables limit = .ok joint) : joint.Nonnegative := by
  apply product_within _ hjoint
  intro places _
  change 0 ≤ valueAt tables places
  unfold valueAt
  rw [Scalar.product_eq]
  apply List.prod_nonneg
  intro x hx
  obtain ⟨t, ht, place, _, heq⟩ := exists_of_mem_zipWith hx
  rw [heq]
  exact htables t ht place

theorem product_vanishing {limit : Nat} (ht : t ∈ tables) (hzero : t.Vanishing)
    {joint : DenseTable ℚ} (hjoint : product tables limit = .ok joint) : joint.Vanishing := by
  apply product_within _ hjoint
  intro places hlength
  change valueAt tables places = 0
  obtain ⟨index, hindex, rfl⟩ := List.getElem_of_mem ht
  have hvalue : tables[index].value (places[index]) = 0 := hzero _
  unfold valueAt
  rw [Scalar.product_eq, List.prod_eq_zero_iff, List.mem_iff_getElem]
  refine ⟨index, by simp [hindex, hlength], ?_⟩
  rw [List.getElem_zipWith]
  exact hvalue

end DenseTable

namespace TableNetwork

open DenseTable

variable {n : TableNetwork ℚ} {tables left : List (DenseTable ℚ)} {evidence : Evidence} {v : Nat}

/-! ## Elimination -/

theorem eliminateVar_nonnegative (htables : ∀ t ∈ tables, t.Nonnegative)
    (hleft : n.eliminateVar tables v = .ok left) : ∀ t ∈ left, t.Nonnegative := by
  obtain ⟨joint, hjoint, hleft⟩ := bind_eq_ok_iff.mp hleft
  cases hleft
  rw [List.forall_mem_append, List.forall_mem_singleton]
  have hjoined : joint.Nonnegative := by
    apply product_nonnegative _ hjoint
    intro t ht
    exact htables t (List.mem_of_mem_filter ht)
  exact ⟨fun t ht => htables t (List.mem_of_mem_filter ht), hjoined.sumOut v⟩

theorem eliminateVar_vanishing (htables : ∃ t ∈ tables, t.Vanishing)
    (hleft : n.eliminateVar tables v = .ok left) : ∃ t ∈ left, t.Vanishing := by
  obtain ⟨joint, hjoint, hleft⟩ := bind_eq_ok_iff.mp hleft
  cases hleft
  obtain ⟨t, ht, hzero⟩ := htables
  by_cases hmentions : t.mentions v
  · have hjoined : joint.Vanishing :=
      product_vanishing (List.mem_filter.mpr ⟨ht, hmentions⟩) hzero hjoint
    exact ⟨joint.sumOut v, by simp, hjoined.sumOut v⟩
  · have hrest : t ∈ tables.filter (fun t => !t.mentions v) := by
      simp [ht, hmentions]
    exact ⟨t, List.mem_append_left _ hrest, hzero⟩

/-- What the elimination of one variable keeps, elimination keeps. -/
theorem eliminateAll_keeps (keeps : List (DenseTable ℚ) → Prop)
    (hstep : ∀ tables left v, keeps tables → n.eliminateVar tables v = .ok left → keeps left)
    {fuel : Nat} {pending : List Nat} (htables : keeps tables)
    (hleft : n.eliminateAll fuel pending tables = .ok left) : keeps left := by
  induction fuel generalizing pending tables with
  | zero =>
      cases hleft
      exact htables
  | succ fuel ih =>
      unfold eliminateAll at hleft
      cases hchoice : n.cheapest tables pending with
      | none =>
          rw [hchoice] at hleft
          cases hleft
          exact htables
      | some choice =>
          rw [hchoice] at hleft
          obtain ⟨next, hnext, hrest⟩ := bind_eq_ok_iff.mp hleft
          exact ih (hstep tables next choice.1 htables hnext) hrest

/-! ## The last table -/

/-- The product of what elimination leaves.  For a belief that is all variables but the one asked
for, unless it is observed. -/
def lastTable (n : TableNetwork ℚ) (evidence : Evidence) (v : Nat) :
    Except SolverFault (DenseTable ℚ) := do
  let left ← n.eliminate evidence (if (Arrival.get? evidence v).isSome then none else some v)
  DenseTable.product left n.limit

/-- An answer that needs a positive total. -/
def ifPositive {α : Type} (total : ℚ) (answer : α) : Except SolverFault α :=
  if Scalar.isPositive total then .ok answer else .error .inconsistentEvidence

/-- The belief that a last table comes to. -/
def readBelief (count : Nat) (evidence : Evidence) (v : Nat) (joint : DenseTable ℚ) :
    Except SolverFault (List ℚ) :=
  match Arrival.get? evidence v with
  | some state =>
      ifPositive joint.total ((List.range count).map (fun s => if s = state then 1 else 0))
  | none =>
      let values :=
        if joint.vars.isEmpty then List.replicate count (joint.value 0) else joint.values.toList
      ifPositive (Scalar.sum values) (values.map (· / Scalar.sum values))

theorem belief_eq_bind (n : TableNetwork ℚ) (evidence : Evidence) (v : Nat) :
    n.belief evidence v = n.cardOf v >>= fun count =>
      n.lastTable evidence v >>= readBelief count evidence v := by
  unfold belief lastTable partition readBelief
  cases n.cardOf v with
  | error fault => rfl
  | ok count =>
      cases Arrival.get? evidence v with
      | some state =>
          simp only [bind, Except.bind, pure, Except.pure, Option.isSome_some, if_true]
          cases n.eliminate evidence none with
          | error fault => rfl
          | ok left =>
              dsimp only
              cases DenseTable.product left n.limit with
              | error fault => rfl
              | ok joint =>
                  unfold ifPositive
                  dsimp only
                  cases Scalar.isPositive joint.total <;> rfl
      | none =>
          simp only [bind, Except.bind, pure, Except.pure, Option.isSome_none, Bool.false_eq_true,
            if_false]
          cases n.eliminate evidence (some v) with
          | error fault => rfl
          | ok left =>
              dsimp only
              cases DenseTable.product left n.limit <;> rfl

theorem lastTable_nonnegative (hn : ∀ t ∈ n.tables, t.Nonnegative) {joint : DenseTable ℚ}
    (hjoint : n.lastTable evidence v = .ok joint) : joint.Nonnegative := by
  obtain ⟨left, hleft, hjoint⟩ := bind_eq_ok_iff.mp hjoint
  apply product_nonnegative _ hjoint
  apply eliminateAll_keeps (fun tables => ∀ t ∈ tables, t.Nonnegative) _ _ hleft
  · intro tables left v htables hleft
    exact eliminateVar_nonnegative htables hleft
  · rw [List.forall_mem_map]
    exact fun t ht => (hn t ht).clamp evidence

theorem lastTable_vanishing (hn : ∃ t ∈ n.tables, t.Vanishing) {joint : DenseTable ℚ}
    (hjoint : n.lastTable evidence v = .ok joint) : joint.Vanishing := by
  obtain ⟨left, hleft, hjoint⟩ := bind_eq_ok_iff.mp hjoint
  have hvanishing : ∃ t ∈ left, t.Vanishing := by
    apply eliminateAll_keeps (fun tables => ∃ t ∈ tables, t.Vanishing) _ _ hleft
    · intro tables left v htables hleft
      exact eliminateVar_vanishing htables hleft
    · obtain ⟨t, ht, hzero⟩ := hn
      exact ⟨clamp evidence t, List.mem_map_of_mem ht, hzero.clamp evidence⟩
  obtain ⟨t, ht, hzero⟩ := hvanishing
  exact product_vanishing ht hzero hjoint

theorem ifPositive_ok {α : Type} {total : ℚ} {answer given : α}
    (hgiven : ifPositive total answer = .ok given) : given = answer ∧ 0 < total := by
  unfold ifPositive at hgiven
  split at hgiven
  next hpositive =>
    cases hgiven
    exact ⟨rfl, Scalar.isPositive_iff.mp hpositive⟩
  next => cases hgiven

theorem belief_nonneg (hn : ∀ t ∈ n.tables, t.Nonnegative) {belief : List ℚ}
    (hbelief : n.belief evidence v = .ok belief) : ∀ x ∈ belief, 0 ≤ x := by
  rw [belief_eq_bind] at hbelief
  obtain ⟨count, _, hbelief⟩ := bind_eq_ok_iff.mp hbelief
  obtain ⟨joint, hjoint, hbelief⟩ := bind_eq_ok_iff.mp hbelief
  have hvalues := lastTable_nonnegative hn hjoint
  unfold readBelief at hbelief
  split at hbelief
  next state _ =>
    obtain ⟨hgiven, _⟩ := ifPositive_ok hbelief
    rw [hgiven, List.forall_mem_map]
    intro s _
    split
    · exact zero_le_one
    · exact le_refl 0
  next =>
    obtain ⟨hgiven, hpositive⟩ := ifPositive_ok hbelief
    rw [hgiven, List.forall_mem_map]
    intro x hx
    apply div_nonneg _ hpositive.le
    split at hx
    · rw [List.eq_of_mem_replicate hx]
      exact hvalues 0
    · exact nonnegative_iff.mp hvalues x hx

/-- A network with a table of zeros has no beliefs. -/
theorem belief_ne_ok (hn : ∃ t ∈ n.tables, t.Vanishing) (belief : List ℚ) :
    n.belief evidence v ≠ .ok belief := by
  intro hbelief
  rw [belief_eq_bind] at hbelief
  obtain ⟨count, _, hbelief⟩ := bind_eq_ok_iff.mp hbelief
  obtain ⟨joint, hjoint, hbelief⟩ := bind_eq_ok_iff.mp hbelief
  have hvanishing := lastTable_vanishing hn hjoint
  have hvalues : ∀ x ∈ joint.values.toList, x = 0 := within_iff.mp hvanishing
  unfold readBelief at hbelief
  split at hbelief
  next state _ =>
    obtain ⟨_, hpositive⟩ := ifPositive_ok hbelief
    rw [total_eq, List.sum_eq_zero hvalues] at hpositive
    exact lt_irrefl 0 hpositive
  next =>
    obtain ⟨_, hpositive⟩ := ifPositive_ok hbelief
    rw [Scalar.sum_eq] at hpositive
    apply hpositive.ne'
    apply List.sum_eq_zero
    intro x hx
    split at hx
    · rw [List.eq_of_mem_replicate hx]
      exact hvanishing 0
    · exact hvalues x hx

end TableNetwork

end DerivationBelief

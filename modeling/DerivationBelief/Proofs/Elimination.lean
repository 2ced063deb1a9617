import DerivationBelief.VariableElimination
import DerivationBelief.Proofs.TableProduct
import Mathlib.Tactic

/-!
# Elimination keeps the weight of all tables

The weight of a list of tables is the product of their weights.  Fixing the evidence replaces the
states of the observed variables, and eliminating a variable sums the weight over its states, in
whatever order the variables are eliminated.  The greedy choice is one such order.
-/

namespace DerivationBelief

/-! ## Evidence -/

def override (evidence : Evidence) (a : Assignment) : Assignment :=
  fun v => (Arrival.get? evidence v).getD (a v)

/-- Every observed state is below the cardinality of its variable. -/
def Evidence.Below (card : Nat → Nat) (evidence : Evidence) : Prop :=
  ∀ entry ∈ evidence, entry.2 < card entry.1

variable {card : Nat → Nat}

theorem override_cons (v s : Nat) (evidence : Evidence) (a : Assignment) :
    override ((v, s) :: evidence) a = Function.update (override evidence a) v s := by
  funext u
  unfold override
  by_cases huv : v = u
  · subst u
    simp [Arrival.get?]
  · simp [Arrival.get?, huv, Ne.symm huv]

theorem override_update {evidence : Evidence} {v : Nat} (hv : Arrival.get? evidence v = none)
    (a : Assignment) (s : Nat) :
    override evidence (Function.update a v s) = Function.update (override evidence a) v s := by
  funext u
  unfold override
  by_cases huv : u = v
  · subst u
    simp [hv]
  · simp [huv]

theorem override_of_get? {evidence : Evidence} {v s : Nat}
    (hv : Arrival.get? evidence v = some s) (a : Assignment) : override evidence a v = s := by
  unfold override
  rw [hv, Option.getD_some]

theorem InRange.override {evidence : Evidence} (hevidence : evidence.Below card) {a : Assignment}
    (ha : InRange card a) : InRange card (override evidence a) := by
  intro v
  unfold DerivationBelief.override
  cases hget : Arrival.get? evidence v with
  | none => exact ha v
  | some s => exact hevidence (v, s) (Arrival.mem_of_get? hget)

theorem get?_filter_keys {evidence : Evidence} {keep : Nat → Bool} {v : Nat} (hv : keep v = true) :
    Arrival.get? (evidence.filter (fun entry => keep entry.1)) v = Arrival.get? evidence v := by
  induction evidence with
  | nil => rfl
  | cons entry evidence ih =>
      obtain ⟨u, s⟩ := entry
      by_cases huv : u = v
      · subst u
        simp [hv, Arrival.get?]
      · by_cases hu : keep u = true <;> simp [hu, Arrival.get?, huv, ih]

namespace DenseTable

variable {t : DenseTable ℚ}

theorem Fits.restrictAll (ht : t.Fits card) {entries : Evidence} (hentries : entries.Below card)
    {fixed : DenseTable ℚ}
    (hfixed : entries.foldl (fun table entry => table.restrict entry.1 entry.2) t = fixed) :
    fixed.Fits card ∧ (∀ v, v ∈ fixed.vars ↔ v ∈ t.vars ∧ Arrival.get? entries v = none) ∧
      ∀ a, InRange card a → fixed.weightAt a = t.weightAt (override entries a) := by
  induction entries generalizing t with
  | nil =>
      subst fixed
      exact ⟨ht, fun v => by simp [Arrival.get?], fun a _ => rfl⟩
  | cons entry entries ih =>
      obtain ⟨u, s⟩ := entry
      have hs : s < card u := hentries (u, s) List.mem_cons_self
      have hrest : Evidence.Below card entries := fun e he => hentries e (List.mem_cons_of_mem _ he)
      rw [List.foldl_cons] at hfixed
      by_cases hu : u ∈ t.vars
      · obtain ⟨hvars, hfits, hweight⟩ := ht.restrict hu hs
        obtain ⟨hfixedFits, hfixedVars, hfixedWeight⟩ := ih hfits hrest hfixed
        refine ⟨hfixedFits, ?_, ?_⟩
        · intro v
          rw [hfixedVars, hvars, ht.nodup.mem_erase_iff]
          by_cases huv : u = v
          · simp [Arrival.get?, huv]
          · simp [Arrival.get?, huv, Ne.symm huv]
        · intro a ha
          rw [hfixedWeight a ha, hweight _ (ha.override hrest), override_cons]
      · rw [restrict_of_not_mem hu] at hfixed
        obtain ⟨hfixedFits, hfixedVars, hfixedWeight⟩ := ih ht hrest hfixed
        refine ⟨hfixedFits, ?_, ?_⟩
        · intro v
          rw [hfixedVars]
          by_cases huv : u = v
          · subst v
            simp [hu]
          · simp [Arrival.get?, huv]
        · intro a ha
          rw [hfixedWeight a ha, override_cons]
          exact (update_of_dependsOn t.weightAt_dependsOn hu _ _).symm

end DenseTable

namespace TableNetwork

open DenseTable

/-- Fixing the evidence in a table puts the observed states in. -/
theorem clamp_spec {t : DenseTable ℚ} (ht : t.Fits card) {evidence : Evidence}
    (hevidence : evidence.Below card) :
    (clamp evidence t).Fits card ∧
      (∀ v, v ∈ (clamp evidence t).vars ↔ v ∈ t.vars ∧ Arrival.get? evidence v = none) ∧
      ∀ a, InRange card a → (clamp evidence t).weightAt a = t.weightAt (override evidence a) := by
  have hbelow : Evidence.Below card (evidence.filter (fun entry => t.mentions entry.1)) :=
    fun entry hentry => hevidence entry (List.mem_of_mem_filter hentry)
  have hown : ∀ v ∈ t.vars,
      Arrival.get? (evidence.filter (fun entry => t.mentions entry.1)) v =
        Arrival.get? evidence v := by
    intro v hv
    exact get?_filter_keys (by simpa [mentions] using hv)
  obtain ⟨hfits, hvars, hweight⟩ := ht.restrictAll hbelow rfl
  refine ⟨hfits, ?_, ?_⟩
  · intro v
    refine (hvars v).trans ?_
    constructor
    · rintro ⟨hv, hnone⟩
      exact ⟨hv, hown v hv ▸ hnone⟩
    · rintro ⟨hv, hnone⟩
      exact ⟨hv, (hown v hv).trans hnone⟩
  · intro a ha
    refine (hweight a ha).trans (t.weightAt_dependsOn ?_)
    intro v hv
    unfold override
    rw [hown v hv]

/-! ## Eliminating one variable -/

def weightOf (tables : List (DenseTable ℚ)) (a : Assignment) : ℚ :=
  (tables.map (fun t => t.weightAt a)).prod

def scopeOf (tables : List (DenseTable ℚ)) : Set Nat :=
  {v | ∃ t ∈ tables, v ∈ t.vars}

theorem scopeOf_append (tables others : List (DenseTable ℚ)) :
    scopeOf (tables ++ others) = scopeOf tables ∪ scopeOf others := by
  ext v
  simp [scopeOf, or_and_right, exists_or]

theorem scopeOf_singleton (t : DenseTable ℚ) : scopeOf [t] = {v | v ∈ t.vars} := by
  simp [scopeOf]

theorem weightOf_dependsOn (tables : List (DenseTable ℚ)) :
    DependsOn (weightOf tables) (scopeOf tables) := by
  intro a b hab
  unfold weightOf
  congr 1
  apply List.map_congr_left
  intro t ht
  exact t.weightAt_dependsOn fun v hv => hab v ⟨t, ht, hv⟩

theorem weightOf_append (tables others : List (DenseTable ℚ)) (a : Assignment) :
    weightOf (tables ++ others) a = weightOf tables a * weightOf others a := by
  simp [weightOf]

theorem weightOf_singleton (t : DenseTable ℚ) (a : Assignment) :
    weightOf [t] a = t.weightAt a := by
  simp [weightOf]

theorem weightOf_perm {tables others : List (DenseTable ℚ)} (hperm : tables.Perm others)
    (a : Assignment) : weightOf tables a = weightOf others a :=
  (hperm.map _).prod_eq

variable {n : TableNetwork ℚ} {tables left : List (DenseTable ℚ)}

theorem eliminateVar_ok (hcard : ∀ v, 0 < card v) (htables : ∀ t ∈ tables, t.Fits card) {v : Nat}
    (hv : v ∈ scopeOf tables) (hleft : n.eliminateVar tables v = .ok left) :
    (∀ t ∈ left, t.Fits card) ∧ scopeOf left = scopeOf tables \ {v} ∧
      ∀ a, InRange card a → weightOf left a = sumState card v (weightOf tables) a := by
  unfold eliminateVar at hleft
  set touching := tables.filter (fun t => t.mentions v) with htouching
  set rest := tables.filter (fun t => !t.mentions v) with hrest
  have hmemTouching : ∀ t, t ∈ touching ↔ t ∈ tables ∧ v ∈ t.vars := by
    intro t
    simp [htouching, mentions]
  have hmemRest : ∀ t, t ∈ rest ↔ t ∈ tables ∧ v ∉ t.vars := by
    intro t
    simp [hrest, mentions]
  have hsplit : weightOf tables = fun a => weightOf rest a * weightOf touching a := by
    funext a
    rw [mul_comm, ← weightOf_append]
    exact weightOf_perm (List.filter_append_perm _ tables).symm a
  obtain ⟨joint, hjoint, hleft⟩ := bind_eq_ok_iff.mp hleft
  cases hleft
  have hfitsTouching : ∀ t ∈ touching, t.Fits card :=
    fun t ht => htables t ((hmemTouching t).mp ht).1
  obtain ⟨hjointVars, hjointFits, hjointWeight⟩ := product_ok hcard hfitsTouching hjoint
  have hmemJoint : ∀ u, u ∈ joint.vars ↔ ∃ t ∈ tables, v ∈ t.vars ∧ u ∈ t.vars := by
    intro u
    rw [hjointVars, mem_unionVars]
    simp only [hmemTouching, and_assoc]
  obtain ⟨t, ht, hvt⟩ := hv
  obtain ⟨hsumVars, hsumFits, hsumWeight⟩ :=
    hjointFits.sumOut ((hmemJoint v).mpr ⟨t, ht, hvt, hvt⟩) (hcard v)
  have hmemSum : ∀ u, u ∈ (joint.sumOut v).vars ↔
      u ≠ v ∧ ∃ t ∈ tables, v ∈ t.vars ∧ u ∈ t.vars := by
    intro u
    rw [hsumVars, hjointFits.nodup.mem_erase_iff, hmemJoint]
  refine ⟨?_, ?_, ?_⟩
  · rw [List.forall_mem_append, List.forall_mem_singleton]
    exact ⟨fun s hs => htables s ((hmemRest s).mp hs).1, hsumFits⟩
  · ext u
    rw [scopeOf_append, scopeOf_singleton]
    constructor
    · rintro (⟨s, hs, hus⟩ | hsum)
      · obtain ⟨hstables, hvs⟩ := (hmemRest s).mp hs
        refine ⟨⟨s, hstables, hus⟩, ?_⟩
        rintro rfl
        exact hvs hus
      · obtain ⟨hne, s, hs, _, hus⟩ := (hmemSum u).mp hsum
        exact ⟨⟨s, hs, hus⟩, hne⟩
    · rintro ⟨⟨s, hs, hus⟩, hne⟩
      by_cases hvs : v ∈ s.vars
      · exact Or.inr ((hmemSum u).mpr ⟨hne, s, hs, hvs, hus⟩)
      · exact Or.inl ⟨s, (hmemRest s).mpr ⟨hs, hvs⟩, hus⟩
  · intro a ha
    have houtside : v ∉ scopeOf rest := by
      rintro ⟨s, hs, hvs⟩
      exact ((hmemRest s).mp hs).2 hvs
    rw [weightOf_append, hsplit, sumState_mul_left (weightOf_dependsOn rest) houtside,
      weightOf_singleton, hsumWeight a ha]
    congr 1
    exact sumState_congr hjointWeight ha

theorem eliminateVar_error {v : Nat} {fault : SolverFault}
    (hfault : n.eliminateVar tables v = .error fault) : RefusedAt n.limit fault := by
  rcases bind_eq_error_iff.mp hfault with hjoint | ⟨joint, _, hleft⟩
  · exact product_error hjoint
  · cases hleft

/-! ## Eliminating in some order -/

def eliminateInOrder (n : TableNetwork ℚ) (order : List Nat) (tables : List (DenseTable ℚ)) :
    Except SolverFault (List (DenseTable ℚ)) :=
  order.foldlM n.eliminateVar tables

theorem eliminateInOrder_ok (hcard : ∀ v, 0 < card v) (htables : ∀ t ∈ tables, t.Fits card)
    {order : List Nat} (hnodup : order.Nodup) (horder : ∀ v ∈ order, v ∈ scopeOf tables)
    (hleft : n.eliminateInOrder order tables = .ok left) :
    (∀ t ∈ left, t.Fits card) ∧ scopeOf left = scopeOf tables \ {v | v ∈ order} ∧
      ∀ a, InRange card a → weightOf left a = sumStates card order (weightOf tables) a := by
  induction order generalizing tables with
  | nil =>
      cases hleft
      exact ⟨htables, by simp, fun a _ => rfl⟩
  | cons v order ih =>
      rw [List.nodup_cons] at hnodup
      rw [List.forall_mem_cons] at horder
      obtain ⟨next, hvar, hrest⟩ := foldlM_cons_eq_ok_iff.mp hleft
      obtain ⟨hnextFits, hnextScope, hnextWeight⟩ := eliminateVar_ok hcard htables horder.1 hvar
      have hnextOrder : ∀ u ∈ order, u ∈ scopeOf next := by
        intro u hu
        rw [hnextScope]
        refine ⟨horder.2 u hu, ?_⟩
        rintro rfl
        exact hnodup.1 hu
      obtain ⟨hfits, hscope, hweight⟩ := ih hnextFits hnodup.2 hnextOrder hrest
      refine ⟨hfits, ?_, ?_⟩
      · rw [hscope, hnextScope, Set.sdiff_sdiff]
        congr 1
        ext u
        simp
      · intro a ha
        rw [hweight a ha]
        exact sumStates_congr hnextWeight ha

theorem eliminateInOrder_error {order : List Nat} {fault : SolverFault}
    (hfault : n.eliminateInOrder order tables = .error fault) : RefusedAt n.limit fault := by
  induction order generalizing tables with
  | nil => cases hfault
  | cons v order ih =>
      rcases bind_eq_error_iff.mp hfault with hvar | ⟨next, _, hrest⟩
      · exact eliminateVar_error hvar
      · exact ih hrest

/-! ## The greedy order -/

theorem mem_insertAscending {x y : Nat} {numbers : List Nat} :
    y ∈ insertAscending x numbers ↔ y = x ∨ y ∈ numbers := by
  induction numbers with
  | nil => simp [insertAscending]
  | cons z numbers ih =>
      unfold insertAscending
      split
      · simp
      · split
        · rename_i heq
          subst z
          simp
        · simp [ih, or_left_comm]

theorem insertAscending_sorted {x : Nat} {numbers : List Nat}
    (hsorted : numbers.Pairwise (· < ·)) : (insertAscending x numbers).Pairwise (· < ·) := by
  induction numbers with
  | nil => simp [insertAscending]
  | cons y numbers ih =>
      obtain ⟨hfirst, hrest⟩ := List.pairwise_cons.mp hsorted
      unfold insertAscending
      split
      · rename_i hlt
        refine List.pairwise_cons.mpr ⟨?_, hsorted⟩
        intro z hz
        rcases List.mem_cons.mp hz with rfl | htail
        · exact hlt
        · exact hlt.trans (hfirst z htail)
      · split
        · exact hsorted
        · rename_i hge hne
          refine List.pairwise_cons.mpr ⟨?_, ih hrest⟩
          intro z hz
          rcases mem_insertAscending.mp hz with rfl | htail
          · omega
          · exact hfirst z htail

theorem foldl_insertAscending (numbers : List Nat) {found : List Nat}
    (hfound : found.Pairwise (· < ·)) :
    (numbers.foldl (fun found x => insertAscending x found) found).Pairwise (· < ·) ∧
      ∀ y, y ∈ numbers.foldl (fun found x => insertAscending x found) found ↔
        y ∈ found ∨ y ∈ numbers := by
  induction numbers generalizing found with
  | nil => exact ⟨hfound, by simp⟩
  | cons x numbers ih =>
      obtain ⟨hsorted, hmem⟩ := ih (insertAscending_sorted hfound)
      refine ⟨hsorted, ?_⟩
      intro y
      rw [List.foldl_cons, hmem, mem_insertAscending, List.mem_cons]
      tauto

theorem mem_ascendingSet {y : Nat} {numbers : List Nat} :
    y ∈ ascendingSet numbers ↔ y ∈ numbers := by
  have hmem := (foldl_insertAscending numbers List.Pairwise.nil).2 y
  rwa [List.mem_nil_iff, false_or] at hmem

theorem ascendingSet_nodup (numbers : List Nat) : (ascendingSet numbers).Nodup :=
  (foldl_insertAscending numbers List.Pairwise.nil).1.imp (fun hlt => Nat.ne_of_lt hlt)

theorem cheapest_mem {pending : List Nat} {choice : Nat × Nat}
    (hchoice : n.cheapest tables pending = some choice) : choice.1 ∈ pending := by
  induction pending generalizing choice with
  | nil => cases hchoice
  | cons v pending ih =>
      rw [cheapest] at hchoice
      cases hother : n.cheapest tables pending with
      | none =>
          rw [hother] at hchoice
          cases hchoice
          exact List.mem_cons_self
      | some other =>
          rw [hother, Option.some.injEq] at hchoice
          subst choice
          split
          next hless => exact List.mem_cons_self
          next hmore => exact List.mem_cons_of_mem _ (ih hother)

theorem cheapest_eq_none_iff {pending : List Nat} :
    n.cheapest tables pending = none ↔ pending = [] := by
  cases pending with
  | nil => simp [cheapest]
  | cons v pending =>
      rw [cheapest]
      cases n.cheapest tables pending <;> simp

/-- The greedy elimination eliminates the pending variables in some order. -/
theorem exists_order_eliminateAll (n : TableNetwork ℚ) (pending : List Nat)
    (tables : List (DenseTable ℚ)) :
    ∃ order : List Nat, order.Perm pending ∧
      n.eliminateAll pending.length pending tables = n.eliminateInOrder order tables := by
  induction hlength : pending.length generalizing pending tables with
  | zero =>
      rw [List.length_eq_zero_iff] at hlength
      exact ⟨[], by rw [hlength], rfl⟩
  | succ count ih =>
      cases hchoice : n.cheapest tables pending with
      | none =>
          rw [cheapest_eq_none_iff] at hchoice
          rw [hchoice] at hlength
          cases hlength
      | some choice =>
          obtain ⟨v, size⟩ := choice
          have hv : v ∈ pending := cheapest_mem hchoice
          have herase : (pending.erase v).length = count := by
            rw [List.length_erase_of_mem hv, hlength, Nat.add_sub_cancel]
          rw [eliminateAll, hchoice]
          dsimp only
          cases hvar : n.eliminateVar tables v with
          | error fault =>
              refine ⟨v :: pending.erase v, (List.perm_cons_erase hv).symm, ?_⟩
              unfold eliminateInOrder
              rw [List.foldlM_cons, hvar]
              rfl
          | ok next =>
              obtain ⟨order, horder, hrun⟩ := ih (pending.erase v) next herase
              refine ⟨v :: order, (horder.cons v).trans (List.perm_cons_erase hv).symm, ?_⟩
              unfold eliminateInOrder
              rw [List.foldlM_cons, hvar]
              exact hrun

end TableNetwork

end DerivationBelief

import DerivationBelief.Proofs.BeliefCache
import DerivationBelief.Proofs.NetworkWeights
import DerivationBelief.Proofs.ParameterFitting
import DerivationBelief.Proofs.TableValues
import Mathlib.Tactic

/-!
# Networks of factors without negative weights

The tables of such a network have no negative values, and they fit the cardinalities that the
network knows unless a factor has a variable without states, whose table is empty.  Fitting replaces
values by means of beliefs, which are not negative, so the network stays such a network whatever
calls it is given.
-/

namespace DerivationBelief

/-- A factor with a cardinality for each of its variables, which are different, and without negative
weights. -/
structure Factor.Proper (f : Factor Nat ℚ) : Prop where
  nodup : f.vars.Nodup
  length_eq : f.cards.length = f.vars.length
  nonneg : ∀ entry ∈ f.entries, 0 ≤ entry.2

namespace TableNetwork

open DenseTable

/-- Every table is that of a factor without negative weights, or of a later round of fitting. -/
structure Sound (n : TableNetwork ℚ) : Prop where
  nonnegative : ∀ t ∈ n.tables, t.Nonnegative
  regular_or_empty : n.Regular ∨ ∃ t ∈ n.tables, t.values.size = 0

variable {n m loaded : TableNetwork ℚ} {label : String} {factors more : List (Factor Nat ℚ)}

theorem vanishing_of_size {t : DenseTable ℚ} (ht : t.values.size = 0) : t.Vanishing := by
  intro place
  simp [value, Array.eq_empty_of_size_eq_zero ht]

/-! ## Loading -/

/-- The cardinalities that were known are still the same. -/
def Extends (cards noted : Array Nat) : Prop :=
  ∀ u, cards.getD u 0 ≠ 0 → noted.getD u 0 = cards.getD u 0

theorem Extends.trans {cards noted last : Array Nat} (h : Extends cards noted)
    (hnext : Extends noted last) : Extends cards last := by
  intro u hu
  have hkept := h u hu
  rw [← hkept]
  exact hnext u (hkept ▸ hu)

theorem noteCard_extends {cards noted : Array Nat} {entry : Nat × Nat}
    (hnoted : noteCard label cards entry = .ok noted) :
    Extends cards noted ∧ noted.getD entry.1 0 = entry.2 := by
  have hvalue := noteCard_ok (v := entry.1) (c := entry.2) hnoted
  constructor
  · intro u hu
    rw [hvalue]
    by_cases hsame : u = entry.1
    -- A cardinality that is known can only be noted again.
    · unfold noteCard at hnoted
      dsimp only at hnoted
      rw [getD_extended] at hnoted
      split at hnoted
      next => cases hnoted
      next hagree =>
        rw [if_pos hsame, hsame]
        by_contra hother
        exact hagree ⟨hsame ▸ hu, Ne.symm hother⟩
    · rw [if_neg hsame]
  · rw [hvalue, if_pos rfl]

theorem noteCards_extends {cards noted : Array Nat} {entries : List (Nat × Nat)}
    (hnoted : entries.foldlM (noteCard label) cards = .ok noted) :
    Extends cards noted ∧ ∀ entry ∈ entries, entry.2 ≠ 0 → noted.getD entry.1 0 = entry.2 := by
  induction entries generalizing cards with
  | nil =>
      cases hnoted
      exact ⟨fun _ _ => rfl, by simp⟩
  | cons entry entries ih =>
      obtain ⟨next, hfirst, hrest⟩ := foldlM_cons_eq_ok_iff.mp hnoted
      obtain ⟨hextends, hvalue⟩ := noteCard_extends hfirst
      obtain ⟨hlater, hentries⟩ := ih hrest
      refine ⟨hextends.trans hlater, ?_⟩
      rw [List.forall_mem_cons]
      refine ⟨?_, hentries⟩
      intro hstates
      rw [hlater _ (hvalue ▸ hstates), hvalue]

/-- What loading more factors has done. -/
structure Adds (label : String) (more : List (Factor Nat ℚ)) (n loaded : TableNetwork ℚ) :
    Prop where
  cards : Extends n.cards loaded.cards
  noted : ∀ f ∈ more, ∀ entry ∈ f.vars.zip f.cards, entry.2 ≠ 0 →
    loaded.cards.getD entry.1 0 = entry.2
  tables : ∃ added, loaded.tables = n.tables ++ added ∧
    List.Forall₂ (fun f t => ∃ number, ofFactor n.limit label number f = .ok t) more added

theorem addFactors_adds {number : Nat}
    (hloaded : (more.zipIdx number).foldlM (addFactor label) n = .ok loaded) :
    Adds label more n loaded := by
  induction more generalizing number n with
  | nil =>
      cases hloaded
      exact ⟨fun _ _ => rfl, by simp, [], by simp, .nil⟩
  | cons f more ih =>
      rw [List.zipIdx_cons] at hloaded
      obtain ⟨next, hnext, hlater⟩ := foldlM_cons_eq_ok_iff.mp hloaded
      obtain ⟨noted, hnoted, hnext⟩ := bind_eq_ok_iff.mp hnext
      obtain ⟨t, htable, hnext⟩ := bind_eq_ok_iff.mp hnext
      cases hnext
      obtain ⟨hextends, hentries⟩ := noteCards_extends hnoted
      have hadds := ih hlater
      constructor
      case cards => exact hextends.trans hadds.cards
      case noted =>
        rw [List.forall_mem_cons]
        refine ⟨?_, hadds.noted⟩
        intro entry hentry hstates
        have hvalue := hentries entry hentry hstates
        exact (hadds.cards _ (hvalue ▸ hstates)).trans hvalue
      case tables =>
        obtain ⟨added, htables, hadded⟩ := hadds.tables
        refine ⟨t :: added, ?_, .cons ⟨number, htable⟩ hadded⟩
        rw [htables, List.append_assoc, List.singleton_append]

theorem entryWeight_nonneg {entries : List (Nat × ℚ)} (hentries : ∀ entry ∈ entries, 0 ≤ entry.2)
    (state : Nat) : 0 ≤ entryWeight entries state := by
  unfold entryWeight
  apply List.foldlRecOn entries _ (motive := fun weight => 0 ≤ weight) (le_refl 0)
  intro weight hweight entry hentry
  split
  · exact hentries entry hentry
  · exact hweight

theorem ofFactor_sound {limit number : Nat} {f : Factor Nat ℚ} {t : DenseTable ℚ}
    (hf : f.Proper) (htable : ofFactor limit label number f = .ok t) :
    t.Nonnegative ∧ t.values.size = f.cards.prod := by
  obtain ⟨size, hsize, htable⟩ := bind_eq_ok_iff.mp htable
  have hproduct := checkedSize_ok hsize
  split at htable
  next values hfill =>
    cases htable
    obtain ⟨hcount, hvalues⟩ := fill_zeros_ok hfill
    refine ⟨?_, hcount.trans hproduct⟩
    intro place
    change 0 ≤ values.getD place 0
    by_cases hplace : place < size
    · rw [hvalues place hplace]
      exact entryWeight_nonneg hf.nonneg place
    · simp [Array.getD_eq_getD_getElem?, hcount ▸ hplace]
  next => cases htable

/-- With states for every variable the factors agree on what the network knows. -/
theorem Adds.consistent (hadds : Adds label factors n loaded) (hfactors : ∀ f ∈ factors, f.Proper)
    (hstates : ∀ f ∈ factors, 0 ∉ f.cards) : Consistent loaded.states factors := by
  intro f hf
  refine ⟨(hfactors f hf).nodup, ?_⟩
  have hentries : ∀ entry ∈ f.vars.zip f.cards, entry.2 = loaded.states entry.1 := by
    intro entry hentry
    have hpositive : entry.2 ≠ 0 := by
      intro hzero
      exact hstates f hf (hzero ▸ (List.of_mem_zip hentry).2)
    have hnoted := hadds.noted f hf entry hentry hpositive
    unfold states
    omega
  have hlength := (hfactors f hf).length_eq
  calc
    f.cards = (f.vars.zip f.cards).map Prod.snd := (List.map_snd_zip hlength.le).symm
    _ = (f.vars.zip f.cards).map (fun entry => loaded.states entry.1) :=
        List.map_congr_left hentries
    _ = ((f.vars.zip f.cards).map Prod.fst).map loaded.states := by rw [List.map_map]; rfl
    _ = f.vars.map loaded.states := by rw [List.map_fst_zip hlength.ge]

theorem ofFactors_sound {limit : Nat} (hfactors : ∀ f ∈ factors, f.Proper)
    (hloaded : ofFactors label limit factors = .ok loaded) : loaded.Sound := by
  have hadds := addFactors_adds hloaded
  obtain ⟨added, htables, hadded⟩ := hadds.tables
  rw [List.nil_append] at htables
  subst htables
  have hsound : ∀ t ∈ loaded.tables, t.Nonnegative := by
    intro t ht
    obtain ⟨index, hindex, rfl⟩ := List.getElem_of_mem ht
    have hfactor : index < factors.length := hadded.length_eq ▸ hindex
    obtain ⟨number, htable⟩ := hadded.get hfactor hindex
    exact (ofFactor_sound (hfactors _ (List.getElem_mem hfactor)) htable).1
  refine ⟨hsound, ?_⟩
  by_cases hstates : ∀ f ∈ factors, 0 ∉ f.cards
  · left
    obtain ⟨hholds, _⟩ := ofFactors_holds (hadds.consistent hfactors hstates) hloaded
    constructor
    case fits => exact hholds.fits
    case known =>
      intro t ht v hv
      rw [hholds.cards v ((hholds.scope v).mp ⟨t, ht, hv⟩)]
      exact loaded.states_pos v
    case nonneg => exact fun t ht => nonnegative_iff.mp (hsound t ht)
  · right
    push Not at hstates
    obtain ⟨f, hf, hzero⟩ := hstates
    obtain ⟨index, hindex, rfl⟩ := List.getElem_of_mem hf
    have htable : index < loaded.tables.length := hadded.length_eq ▸ hindex
    obtain ⟨number, hoffactor⟩ := hadded.get hindex htable
    refine ⟨loaded.tables[index], List.getElem_mem htable, ?_⟩
    exact (ofFactor_sound (hfactors _ hf) hoffactor).2.trans (List.prod_eq_zero hzero)

/-! ## Fitting -/

variable {params : List EstimatedFactor} {e : Expectation ℚ}

theorem maximise_limit (n : TableNetwork ℚ) (params : List EstimatedFactor) (e : Expectation ℚ) :
    (n.maximise params e).model.limit = n.limit := by
  have hentries : ∀ (entries : List (EstimatedFactor × List ℚ)) (m : Maximising ℚ),
      (entries.foldl (maximiseParam e.used) m).model.limit = m.model.limit := by
    intro entries
    induction entries with
    | nil => exact fun _ => rfl
    | cons entry entries ih =>
        intro m
        rw [List.foldl_cons, ih]
        unfold maximiseParam
        split <;> rfl
  exact hentries _ ⟨n, 0⟩

theorem expect_nonneg (hn : ∀ t ∈ n.tables, t.Nonnegative) {table : EvidenceTable}
    (he : n.expect table params = .ok e) : ∀ sum ∈ e.sums, ∀ x ∈ sum, 0 ≤ x := by
  refine foldlM_keeps (fun e : Expectation ℚ => ∀ sum ∈ e.sums, ∀ x ∈ sum, 0 ≤ x) ?_ ?_ he
  case refine_1 =>
    intro sums row next hsums hnext
    unfold expectRow at hnext
    split at hnext
    next beliefs hbeliefs =>
      cases hnext
      have hbelief : ∀ belief ∈ beliefs, ∀ x ∈ belief, 0 ≤ x :=
        forall_mem_of_mapM_eq_ok (fun _ _ => belief_nonneg hn) hbeliefs
      intro sum hsum x hx
      obtain ⟨old, hold, belief, hmem, heq⟩ := exists_of_mem_zipWith hsum
      rw [heq] at hx
      obtain ⟨a, ha, b, hb, hvalue⟩ := exists_of_mem_zipWith hx
      rw [hvalue]
      exact add_nonneg (hsums old hold a ha) (hbelief belief hmem b hb)
    next =>
      cases hnext
      exact hsums
    next => cases hnext
  case refine_2 =>
    intro sum hsum x hx
    obtain ⟨p, _, hp⟩ := List.mem_map.mp hsum
    split at hp
    next t _ =>
      rw [← hp] at hx
      exact (List.eq_of_mem_replicate hx).ge
    next =>
      rw [← hp] at hx
      cases hx

theorem maximiseParam_nonneg {m : Maximising ℚ} (hm : ∀ t ∈ m.model.tables, t.Nonnegative)
    {entry : EstimatedFactor × List ℚ} (hentry : ∀ x ∈ entry.2, 0 ≤ x) (used : Nat) :
    ∀ t ∈ (maximiseParam used m entry).model.tables, t.Nonnegative := by
  unfold maximiseParam
  split
  next => exact hm
  next table htable =>
    have hold := nonnegative_iff.mp (hm table (List.mem_of_getElem? htable))
    intro t ht
    rcases List.mem_or_eq_of_mem_set ht with hmem | heq
    · exact hm t hmem
    · rw [heq, nonnegative_iff, List.toList_toArray, List.forall_mem_append, List.forall_mem_map]
      constructor
      · intro x hx
        exact div_nonneg (hentry x hx) (Nat.cast_nonneg used)
      · exact fun x hx => hold x (List.mem_of_mem_drop hx)

theorem maximise_nonneg (hn : ∀ t ∈ n.tables, t.Nonnegative)
    (he : ∀ sum ∈ e.sums, ∀ x ∈ sum, 0 ≤ x) :
    ∀ t ∈ (n.maximise params e).model.tables, t.Nonnegative := by
  unfold maximise
  apply List.foldlRecOn (params.zip e.sums) (maximiseParam e.used)
    (motive := fun m => ∀ t ∈ m.model.tables, t.Nonnegative) hn
  intro m hm entry hentry
  exact maximiseParam_nonneg hm (he entry.2 (List.of_mem_zip hentry).2) e.used

theorem Regular.of_shapes (hn : n.Regular) (hshapes : m.shapes = n.shapes)
    (hcards : m.cards = n.cards) (hnonneg : ∀ t ∈ m.tables, t.Nonnegative) : m.Regular := by
  have hstates : m.states = n.states := by
    unfold states
    rw [hcards]
  constructor
  case fits => exact hstates ▸ fits_of_shapes hn.fits hshapes
  case known =>
    intro t ht v hv
    have hmem : t.shape ∈ n.shapes := hshapes ▸ List.mem_map_of_mem ht
    obtain ⟨other, hother, hshape⟩ := List.mem_map.mp hmem
    have hvars : other.vars = t.vars := congrArg Prod.fst hshape
    rw [hcards]
    exact hn.known other hother v (hvars ▸ hv)
  case nonneg => exact fun t ht => nonnegative_iff.mp (hnonneg t ht)

theorem Regular.round (hn : n.Regular) {table : EvidenceTable} (he : n.expect table params = .ok e) :
    (n.maximise params e).model.Regular := by
  have hnonneg : ∀ t ∈ n.tables, t.Nonnegative :=
    fun t ht => nonnegative_iff.mpr (hn.nonneg t ht)
  apply hn.of_shapes (maximise_shapes (expect_bounded he)) (n.maximise_cards params e)
  exact maximise_nonneg hnonneg (expect_nonneg hnonneg he)

theorem Sound.round (hn : n.Sound) {table : EvidenceTable} (he : n.expect table params = .ok e) :
    (n.maximise params e).model.Sound := by
  constructor
  case nonnegative => exact maximise_nonneg hn.nonnegative (expect_nonneg hn.nonnegative he)
  case regular_or_empty =>
    rcases hn.regular_or_empty with hregular | ⟨t, ht, hempty⟩
    · exact Or.inl (hregular.round he)
    · right
      have hshapes := maximise_shapes (expect_bounded he)
      have hmem : t.shape ∈ (n.maximise params e).model.shapes :=
        hshapes ▸ List.mem_map_of_mem ht
      obtain ⟨other, hother, hshape⟩ := List.mem_map.mp hmem
      have hsize : other.values.size = t.values.size := congrArg (fun shape => shape.2.2) hshape
      exact ⟨other, hother, hsize.trans hempty⟩

/-- What every round keeps, fitting keeps. -/
theorem fitRounds_keeps (keeps : TableNetwork ℚ → Prop) {table : EvidenceTable}
    (hround : ∀ k e, keeps k → k.expect table params = .ok e → e.used ≠ 0 →
      keeps (k.maximise params e).model)
    (hn : keeps n) (tolerance : ℚ) (overtime : Nat → Bool) (rounds : Nat) :
    keeps (fitRounds tolerance table params overtime rounds n).2 := by
  induction rounds generalizing overtime n with
  | zero => exact hn
  | succ rounds ih =>
      unfold fitRounds
      split
      next => exact hn
      next =>
        cases he : n.expect table params with
        | error fault => exact hn
        | ok e =>
            dsimp only
            split
            next => exact hn
            next hused =>
              split
              next => exact hround n e hn he hused
              next => exact ih (hround n e hn he hused) _

end TableNetwork

namespace ExactNetwork

variable {n : ExactNetwork ℚ}

theorem eq_of_plain_eq {m : ExactNetwork ℚ} (hplain : m.plain = n.plain) :
    m.model = n.model ∧ m.evidence = n.evidence := by
  unfold plain at hplain
  rw [ExactNetwork.mk.injEq] at hplain
  exact ⟨hplain.1, hplain.2.1⟩

theorem queryStates_model (n : ExactNetwork ℚ) (var : Nat) :
    (n.queryStates var).2.model = n.model :=
  (eq_of_plain_eq (queryStates_plain n var)).1

theorem perform_sound (hn : n.model.Sound) (call : NetworkCall) :
    (n.perform call).2.model.Sound := by
  cases call with
  | observe var value =>
      unfold perform
      dsimp only
      rcases n.observe_cases var value with ⟨fault, hfault, _⟩ | hok
      · rw [hfault]
        exact hn
      · rw [hok]
        exact hn
  | reset => exact hn
  | propagate => exact hn
  | fit tree tablePath planPath clock =>
      change (n.fit tree tablePath planPath clock).2.model.Sound
      unfold fit
      cases n.readFitting tree tablePath planPath with
      | error fault => exact hn
      | ok fitting =>
          exact TableNetwork.fitRounds_keeps TableNetwork.Sound (fun _ _ hk he _ => hk.round he) hn
            _ _ _
  | queryTruth var =>
      change (n.queryStates var).2.model.Sound
      rw [queryStates_model]
      exact hn
  | queryStates var =>
      change (n.queryStates var).2.model.Sound
      rw [queryStates_model]
      exact hn

/-- A network that was loaded from factors without negative weights and has had some calls. -/
def Reachable (n : ExactNetwork ℚ) : Prop :=
  ∃ (label : String) (options : SolverOptions ℚ) (factors : List (Factor Nat ℚ))
    (net : ExactNetwork ℚ) (calls : List NetworkCall), (∀ f ∈ factors, f.Proper) ∧
      ofFactors label options factors = .ok net ∧ (run perform net calls).2 = n

/-- Whatever calls it has had, its tables are sound and its memory is right. -/
theorem Reachable.keeps (hn : n.Reachable) : n.model.Sound ∧ n.Fresh := by
  obtain ⟨label, options, factors, net, calls, hfactors, hnet, rfl⟩ := hn
  obtain ⟨model, hmodel, hnet⟩ := bind_eq_ok_iff.mp hnet
  cases hnet
  have hsound := TableNetwork.ofFactors_sound hfactors hmodel
  have hruns : ∀ (calls : List NetworkCall) (n : ExactNetwork ℚ), n.model.Sound →
      (run perform n calls).2.model.Sound := by
    intro calls
    induction calls with
    | nil => exact fun _ hn => hn
    | cons call calls ih => exact fun n hn => ih _ (perform_sound hn call)
  exact ⟨hruns calls _ hsound, (run_keeps (Fresh.of_forgotten rfl) calls).1⟩

end ExactNetwork

end DerivationBelief

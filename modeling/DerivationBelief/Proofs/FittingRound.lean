import DerivationBelief.Proofs.SoundNetworks
import DerivationBelief.Proofs.TableSizes
import Mathlib.Tactic

/-!
# What one round of fitting does

A round takes the rows that the network can explain, and gives every parameter the mean of its
shares under these rows.  The other tables stay.  A mean is zero where the table was, and positive
where some explained row has a share, so the next round explains the same rows.
-/

namespace DerivationBelief

theorem exists_of_mapM_eq_error {β γ ε : Type} {step : γ → Except ε β} {cs : List γ} {fault : ε}
    (hfault : cs.mapM step = .error fault) : ∃ c ∈ cs, step c = .error fault := by
  induction cs with
  | nil => cases hfault
  | cons c cs ih =>
      rw [List.mapM_cons] at hfault
      rcases bind_eq_error_iff.mp hfault with hfirst | ⟨b, _, hrest⟩
      · exact ⟨c, List.mem_cons_self, hfirst⟩
      · rcases bind_eq_error_iff.mp hrest with hlater | ⟨bs, _, hnone⟩
        · obtain ⟨d, hd, hstep⟩ := ih hlater
          exact ⟨d, List.mem_cons_of_mem c hd, hstep⟩
        · cases hnone

theorem mapM_eq_ok_map {β γ ε : Type} {step : γ → Except ε β} {answer : γ → β} {cs : List γ}
    {bs : List β} (hstep : ∀ c ∈ cs, ∀ b, step c = .ok b → b = answer c)
    (hbs : cs.mapM step = .ok bs) : bs = cs.map answer := by
  induction cs generalizing bs with
  | nil =>
      cases hbs
      rfl
  | cons c cs ih =>
      rw [List.forall_mem_cons] at hstep
      rw [List.mapM_cons] at hbs
      obtain ⟨first, hfirst, hbs⟩ := bind_eq_ok_iff.mp hbs
      obtain ⟨rest, hrest, hbs⟩ := bind_eq_ok_iff.mp hbs
      cases hbs
      rw [List.map_cons, hstep.1 first hfirst, ih hstep.2 hrest]

namespace TableNetwork

variable {n m : TableNetwork ℚ} {table : EvidenceTable} {params : List EstimatedFactor}
  {row : List (Option Bool)} {e : Expectation ℚ}

/-- What the states that agree with a row weigh together. -/
def rowLikelihood (n : TableNetwork ℚ) (table : EvidenceTable) (row : List (Option Bool)) : ℚ :=
  n.likelihood (rowEvidence table.vars row)

/-- The rows that the network can explain. -/
def explained (n : TableNetwork ℚ) (table : EvidenceTable) : List (List (Option Bool)) :=
  table.rows.filter (fun row => 0 < n.rowLikelihood table row)

/-- The share of a state of a variable under a row. -/
def rowShare (n : TableNetwork ℚ) (table : EvidenceTable) (v s : Nat) (row : List (Option Bool)) :
    ℚ :=
  stateWeight n.states n.factors (rowEvidence table.vars row) v s / n.rowLikelihood table row

/-- The mean share of a state under the explained rows. -/
def mean (n : TableNetwork ℚ) (table : EvidenceTable) (v s : Nat) : ℚ :=
  ((n.explained table).map (n.rowShare table v s)).sum / (n.explained table).length

/-- A table of binary observations, and parameters that are the only variable of their tables. -/
structure Fittable (n : TableNetwork ℚ) (table : EvidenceTable) (params : List EstimatedFactor) :
    Prop where
  regular : n.Regular
  binary : ∀ v ∈ table.vars, 2 ≤ n.cards.getD v 0
  named : ∀ p ∈ params, ∃ t, n.tables[p.factor]? = some t ∧ t.vars = [p.var]

theorem Fittable.below (h : n.Fittable table params) (row : List (Option Bool)) :
    Evidence.Below n.states (rowEvidence table.vars row) := by
  apply rowEvidence_below
  intro v hv
  exact le_max_of_le_right (h.binary v hv)

theorem Fittable.known (h : n.Fittable table params) {p : EstimatedFactor} (hp : p ∈ params) :
    p.var ∈ variablesOf n.factors := by
  obtain ⟨t, ht, hvars⟩ := h.named p hp
  rw [mem_variablesOf_factors]
  exact ⟨t, List.mem_of_getElem? ht, by simp [hvars]⟩

/-- A parameter has a value for each state of its variable. -/
theorem Fittable.size_eq (h : n.Fittable table params) {p : EstimatedFactor} (hp : p ∈ params)
    {t : DenseTable ℚ} (ht : n.tables[p.factor]? = some t) : t.values.size = n.states p.var := by
  obtain ⟨named, hnamed, hvars⟩ := h.named p hp
  cases hnamed.symm.trans ht
  rw [(h.regular.fits t (List.mem_of_getElem? ht)).size_eq, hvars]
  simp

/-! ## The expectation -/

/-- A sum for each state of each parameter. -/
def sumsOf (n : TableNetwork ℚ) (params : List EstimatedFactor) (f : Nat → Nat → ℚ) :
    List (List ℚ) :=
  params.map (fun p => (List.range (n.states p.var)).map (f p.var))

theorem addRow_sumsOf (f g : Nat → Nat → ℚ) (used : Nat) :
    addRow ⟨n.sumsOf params f, used⟩ (some (n.sumsOf params g)) =
      ⟨n.sumsOf params (fun v s => f v s + g v s), used + 1⟩ := by
  unfold addRow sumsOf
  simp only [List.zipWith_map, List.zipWith_self]

theorem Fittable.zeroSums_eq (h : n.Fittable table params) :
    n.zeroSums params = n.sumsOf params (fun _ _ => 0) := by
  unfold zeroSums sumsOf
  apply List.map_congr_left
  intro p hp
  obtain ⟨t, ht, _⟩ := h.named p hp
  rw [ht]
  simp [h.size_eq hp ht]

/-- A row that is explained adds its shares, and any other is passed over. -/
theorem Fittable.expectRow_ok (h : n.Fittable table params) (hparams : params ≠ [])
    {next : Expectation ℚ} (hnext : n.expectRow table.vars params e row = .ok next) :
    next = if 0 < n.rowLikelihood table row then
      addRow e (some (n.sumsOf params (fun v s => n.rowShare table v s row))) else e := by
  have hexact : ∀ p ∈ params, ExactBelief n.limit n.states n.factors (rowEvidence table.vars row)
      p.var (n.belief (rowEvidence table.vars row) p.var) := by
    intro p hp
    exact h.regular.belief_exact_shares (h.below row) (h.known hp)
  unfold expectRow at hnext
  split at hnext
  next beliefs hbeliefs =>
    cases hnext
    -- Any of the beliefs shows that the row is explained, so there has to be a parameter.
    have hanswers : ∀ p ∈ params, ∀ belief,
        n.belief (rowEvidence table.vars row) p.var = .ok belief →
          0 < n.rowLikelihood table row ∧ belief = (List.range (n.states p.var)).map
            (fun s => n.rowShare table p.var s row) := by
      intro p hp belief hbelief
      have hanswer := hexact p hp
      rw [hbelief] at hanswer
      exact hanswer
    have hpositive : 0 < n.rowLikelihood table row := by
      obtain ⟨p, hp⟩ := List.exists_mem_of_ne_nil params hparams
      obtain ⟨belief, hbelief⟩ := exists_of_mapM_eq_ok hbeliefs p hp
      exact (hanswers p hp belief hbelief).1
    rw [if_pos hpositive,
      mapM_eq_ok_map (fun p hp belief hbelief => (hanswers p hp belief hbelief).2) hbeliefs]
    rfl
  next hfault =>
    cases hnext
    obtain ⟨p, hp, hbelief⟩ := exists_of_mapM_eq_error hfault
    have hanswer := hexact p hp
    rw [hbelief] at hanswer
    have hnot : ¬ 0 < n.rowLikelihood table row := not_lt.mpr hanswer
    rw [if_neg hnot]
  next => cases hnext

theorem Fittable.expect_ok (h : n.Fittable table params) (hparams : params ≠ [])
    (he : n.expect table params = .ok e) :
    e = ⟨n.sumsOf params (fun v s => ((n.explained table).map (n.rowShare table v s)).sum),
      (n.explained table).length⟩ := by
  have hrows : ∀ (rows : List (List (Option Bool))) (f : Nat → Nat → ℚ) (used : Nat),
      rows.foldlM (n.expectRow table.vars params) ⟨n.sumsOf params f, used⟩ = .ok e →
        e = ⟨n.sumsOf params (fun v s => f v s +
            ((rows.filter (fun row => 0 < n.rowLikelihood table row)).map
              (n.rowShare table v s)).sum),
          used + (rows.filter (fun row => 0 < n.rowLikelihood table row)).length⟩ := by
    intro rows
    induction rows with
    | nil =>
        intro f used he
        cases he
        simp
    | cons row rows ih =>
        intro f used he
        obtain ⟨next, hnext, hrest⟩ := foldlM_cons_eq_ok_iff.mp he
        have hrow := h.expectRow_ok hparams hnext
        by_cases hpositive : 0 < n.rowLikelihood table row
        · rw [if_pos hpositive, addRow_sumsOf] at hrow
          rw [hrow] at hrest
          rw [ih _ _ hrest, List.filter_cons_of_pos (by simpa using hpositive)]
          simp only [List.map_cons, List.sum_cons, List.length_cons, add_assoc, add_comm 1]
        · rw [if_neg hpositive] at hrow
          rw [hrow] at hrest
          rw [ih _ _ hrest, List.filter_cons_of_neg (by simpa using hpositive)]
  unfold expect at he
  rw [h.zeroSums_eq] at he
  rw [hrows _ _ _ he]
  simp [explained]

/-! ## The new tables -/

/-- The network with other values for the tables of some parameters. -/
structure Refitted (n m : TableNetwork ℚ) (params : List EstimatedFactor)
    (values : Nat → List ℚ) : Prop where
  unnamed : ∀ i, i ∉ params.map EstimatedFactor.factor → m.tables[i]? = n.tables[i]?
  named : ∀ p ∈ params, ∀ t, n.tables[p.factor]? = some t →
    m.tables[p.factor]? = some { t with values := (values p.var).toArray }

/-- Every parameter is the variable of its table, for which there are as many values as before. -/
def Replaces (n : TableNetwork ℚ) (params : List EstimatedFactor) (values : Nat → List ℚ) : Prop :=
  ∀ p ∈ params, ∃ t, n.tables[p.factor]? = some t ∧ t.vars = [p.var] ∧
    t.values.size = (values p.var).length

variable {values : Nat → List ℚ}

theorem Replaces.eq_of_factor {p q : EstimatedFactor} (h : n.Replaces params values)
    (hp : p ∈ params) (hq : q ∈ params) (hfactor : q.factor = p.factor) : q = p := by
  obtain ⟨t, ht, hvar, _⟩ := h p hp
  obtain ⟨other, hother, hvarOther, _⟩ := h q hq
  rw [hfactor, ht, Option.some.injEq] at hother
  rw [← hother, hvar, List.cons.injEq] at hvarOther
  cases p
  cases q
  simp_all

theorem Replaces.set {p : EstimatedFactor} (h : n.Replaces (p :: params) values)
    {t : DenseTable ℚ} (ht : n.tables[p.factor]? = some t)
    (hm : m.tables = n.tables.set p.factor { t with values := (values p.var).toArray }) :
    m.Replaces params values := by
  obtain ⟨hlt, _⟩ := List.getElem?_eq_some_iff.mp ht
  intro q hq
  obtain ⟨old, hold, hvar, hsize⟩ := h q (List.mem_cons_of_mem p hq)
  by_cases hfactor : q.factor = p.factor
  · have hsame : q = p := h.eq_of_factor List.mem_cons_self (List.mem_cons_of_mem p hq) hfactor
    subst q
    cases hold.symm.trans ht
    refine ⟨{ t with values := (values p.var).toArray }, ?_, hvar, by simp⟩
    rw [hm, List.getElem?_set_self hlt]
  · refine ⟨old, ?_, hvar, hsize⟩
    rw [hm, List.getElem?_set_ne (Ne.symm hfactor)]
    exact hold

theorem Refitted.cons {p : EstimatedFactor} {next : TableNetwork ℚ} {t : DenseTable ℚ}
    (h : n.Replaces (p :: params) values) (ht : n.tables[p.factor]? = some t)
    (hnext : next.tables = n.tables.set p.factor { t with values := (values p.var).toArray })
    (hm : next.Refitted m params values) : n.Refitted m (p :: params) values := by
  obtain ⟨hlt, _⟩ := List.getElem?_eq_some_iff.mp ht
  constructor
  case unnamed =>
    intro i hi
    rw [List.map_cons, List.mem_cons, not_or] at hi
    rw [hm.unnamed i hi.2, hnext, List.getElem?_set_ne (Ne.symm hi.1)]
  case named =>
    intro q hq old hold
    -- A parameter that is named again gets the same values again.
    by_cases hlater : q ∈ params
    · by_cases hfactor : q.factor = p.factor
      · have hsame : q = p := h.eq_of_factor List.mem_cons_self hq hfactor
        subst q
        cases hold.symm.trans ht
        have hset : next.tables[p.factor]? =
            some { t with values := (values p.var).toArray } := by
          rw [hnext, List.getElem?_set_self hlt]
        have hnamed := hm.named p hlater _ hset
        exact hnamed
      · apply hm.named q hlater
        rw [hnext, List.getElem?_set_ne (Ne.symm hfactor)]
        exact hold
    · have hsame : q = p := (List.mem_cons.mp hq).resolve_right hlater
      subst q
      cases hold.symm.trans ht
      have hlast : p.factor ∉ params.map EstimatedFactor.factor := by
        intro hmem
        obtain ⟨other, hother, hfactor⟩ := List.mem_map.mp hmem
        have hagain := h.eq_of_factor List.mem_cons_self (List.mem_cons_of_mem p hother) hfactor
        exact hlater (hagain ▸ hother)
      rw [hm.unnamed p.factor hlast, hnext, List.getElem?_set_self hlt]

theorem maximiseParam_tables (used : Nat) {start : Maximising ℚ} {p : EstimatedFactor}
    {sums : List ℚ} {t : DenseTable ℚ} (ht : start.model.tables[p.factor]? = some t)
    (hlength : t.values.size = sums.length) :
    (maximiseParam used start (p, sums)).model.tables = start.model.tables.set p.factor
      { t with values := (sums.map (· / (used : ℚ))).toArray } := by
  have hrest : t.values.toList.drop (sums.map (· / (used : ℚ))).length = [] := by
    rw [List.drop_eq_nil_iff, List.length_map, Array.length_toList, hlength]
  unfold maximiseParam
  dsimp only
  rw [ht]
  change start.model.tables.set p.factor { t with values := (sums.map (· / (used : ℚ)) ++
    t.values.toList.drop (sums.map (· / (used : ℚ))).length).toArray } = _
  rw [hrest, List.append_nil]

theorem maximise_refits (sums : Nat → List ℚ) (used : Nat)
    (h : n.Replaces params (fun v => (sums v).map (· / (used : ℚ)))) :
    n.Refitted (n.maximise params ⟨params.map (fun p => sums p.var), used⟩).model params
      (fun v => (sums v).map (· / (used : ℚ))) := by
  have hentries : ∀ (params : List EstimatedFactor) (start : Maximising ℚ),
      start.model.Replaces params (fun v => (sums v).map (· / (used : ℚ))) →
        start.model.Refitted
          ((params.zip (params.map (fun p => sums p.var))).foldl (maximiseParam used) start).model
          params (fun v => (sums v).map (· / (used : ℚ))) := by
    intro params
    induction params with
    | nil => exact fun _ _ => ⟨fun _ _ => rfl, by simp⟩
    | cons p params ih =>
        intro start hstart
        obtain ⟨t, ht, _, hsize⟩ := hstart p List.mem_cons_self
        have htables := maximiseParam_tables used ht
          (hsize.trans (List.length_map _))
        exact .cons hstart ht htables (ih _ (hstart.set ht htables))
  exact hentries params ⟨n, 0⟩ h

/-- A round gives every parameter the mean of its shares under the explained rows. -/
theorem Fittable.round_refits (h : n.Fittable table params) (hparams : params ≠ [])
    (he : n.expect table params = .ok e) :
    n.Refitted (n.maximise params e).model params
      (fun v => (List.range (n.states v)).map (n.mean table v)) := by
  have hvalues : (fun v => (List.range (n.states v)).map (n.mean table v)) = fun v =>
      ((List.range (n.states v)).map (fun s =>
        ((n.explained table).map (n.rowShare table v s)).sum)).map
          (· / ((n.explained table).length : ℚ)) := by
    funext v
    rw [List.map_map]
    rfl
  rw [h.expect_ok hparams he, hvalues]
  refine maximise_refits (fun v => (List.range (n.states v)).map (fun s =>
    ((n.explained table).map (n.rowShare table v s)).sum)) (n.explained table).length ?_
  intro p hp
  obtain ⟨t, ht, hvars⟩ := h.named p hp
  exact ⟨t, ht, hvars, by simp [h.size_eq hp ht]⟩

end TableNetwork

end DerivationBelief

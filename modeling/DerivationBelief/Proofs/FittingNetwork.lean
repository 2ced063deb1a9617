import DerivationBelief.Proofs.FittingOutcome
import DerivationBelief.Proofs.FittingTime
import Mathlib.Tactic

/-!
# Fitting a network

Fitting re-estimates the parameters that its plan names and nothing else, and leaves a distribution
for each of them as soon as one row can be explained.  When it fails, the network is as it was.
-/

namespace DerivationBelief

namespace TableNetwork

variable {n m : TableNetwork ℚ} {table : EvidenceTable} {params : List EstimatedFactor}

/-- A row is passed over when the beliefs of the parameters find its evidence inconsistent. -/
def PassesOver (n : TableNetwork ℚ) (table : EvidenceTable) (params : List EstimatedFactor)
    (row : List (Option Bool)) : Prop :=
  params.mapM (fun p => n.belief (rowEvidence table.vars row) p.var) = .error .inconsistentEvidence

/-- What fitting has done to the tables. -/
structure Reestimated (table : EvidenceTable) (params : List EstimatedFactor)
    (n m : TableNetwork ℚ) : Prop where
  unnamed : ∀ i, i ∉ params.map EstimatedFactor.factor → m.tables[i]? = n.tables[i]?
  named : ∀ p ∈ params, ∀ t, n.tables[p.factor]? = some t → ∃ new,
    m.tables[p.factor]? = some new ∧ new.shape = t.shape ∧ (∀ s, 0 ≤ new.value s) ∧
      ∀ s, t.value s = 0 → new.value s = 0
  passed : ∀ row ∈ table.rows, m.PassesOver table params row ↔ n.PassesOver table params row

theorem Follows.shape_eq (hn : n.Fittable table params) (h : n.Follows table params m)
    {p : EstimatedFactor} (hp : p ∈ params) {t new : DenseTable ℚ}
    (ht : n.tables[p.factor]? = some t) (hnew : m.tables[p.factor]? = some new) :
    new.shape = t.shape := by
  have houtline : t.outline = new.outline := by
    have hplace := congrArg (fun outlines => outlines[p.factor]?) h.alike.outlines_eq
    unfold DenseTable.outlines at hplace
    rw [List.getElem?_map, List.getElem?_map, ht, hnew] at hplace
    simpa using hplace
  have hsize : new.values.size = t.values.size := by
    rw [h.fittable.size_eq hp hnew, hn.size_eq hp ht, h.alike.states_eq]
  unfold DenseTable.outline at houtline
  rw [Prod.mk.injEq] at houtline
  unfold DenseTable.shape
  rw [houtline.1, houtline.2, hsize]

theorem Follows.reestimated (hn : n.Fittable table params) (h : n.Follows table params m) :
    n.Reestimated table params m := by
  constructor
  case unnamed => exact h.unnamed
  case named =>
    intro p hp t ht
    obtain ⟨new, hnew, _⟩ := h.fittable.named p hp
    have hnonneg : new.Nonnegative := DenseTable.nonnegative_iff.mpr
      (h.fittable.regular.nonneg new (List.mem_of_getElem? hnew))
    exact ⟨new, hnew, h.shape_eq hn hp ht hnew, hnonneg, h.zeros p hp t new ht hnew⟩
  case passed => exact fun row hrow => (h.beliefs_matching hn hrow).error_iff.symm

/-- Fitting that has nothing to do leaves a sound network re-estimated. -/
theorem Sound.reestimated_refl (hn : n.Sound) (table : EvidenceTable)
    (params : List EstimatedFactor) : n.Reestimated table params n := by
  constructor
  case unnamed => exact fun _ _ => rfl
  case named =>
    intro p _ t ht
    exact ⟨t, ht, rfl, hn.nonnegative t (List.mem_of_getElem? ht), fun _ hs => hs⟩
  case passed => exact fun _ _ => Iff.rfl

/-- Either fitting has nothing to do, or every round explains the same rows. -/
theorem Sound.idle_or_fittable (hn : n.Sound) (hbinary : ∀ v ∈ table.vars, 2 ≤ n.cards.getD v 0)
    (hnamed : ∀ p ∈ params, ∃ t, n.tables[p.factor]? = some t ∧ t.vars = [p.var]) :
    (params = [] ∨ ∃ t ∈ n.tables, t.values.size = 0) ∨
      params ≠ [] ∧ n.Fittable table params := by
  by_cases hparams : params = []
  · exact Or.inl (Or.inl hparams)
  · rcases hn.regular_or_empty with hregular | hempty
    · exact Or.inr ⟨hparams, hregular, hbinary, hnamed⟩
    · exact Or.inl (Or.inr hempty)

end TableNetwork

namespace ExactNetwork

open TableNetwork

variable {n m : ExactNetwork ℚ} {files : FileTree} {tablePath planPath : String}
  {table : EvidenceTable} {params : List EstimatedFactor} {clock : Clock}

theorem readFitting_named (hread : n.readFitting files tablePath planPath = .ok (table, params)) :
    ∀ p ∈ params, ∃ t, n.model.tables[p.factor]? = some t ∧ t.vars = [p.var] := by
  obtain ⟨tableText, _, hread⟩ := bind_eq_ok_iff.mp hread
  obtain ⟨parsed, _, hread⟩ := bind_eq_ok_iff.mp hread
  obtain ⟨planText, _, hread⟩ := bind_eq_ok_iff.mp hread
  obtain ⟨plan, _, hread⟩ := bind_eq_ok_iff.mp hread
  obtain ⟨_, hparams, hread⟩ := bind_eq_ok_iff.mp hread
  obtain ⟨_, _, hread⟩ := bind_eq_ok_iff.mp hread
  cases hread
  intro p hp
  have hcheck := forM_eq_ok_iff.mp hparams p hp
  split at hcheck
  next t ht =>
    split at hcheck
    next hvars => exact ⟨t, ht, hvars⟩
    next => cases hcheck
  next => cases hcheck

theorem fit_eq_fitRounds
    (hread : n.readFitting files tablePath planPath = .ok (table, params)) :
    n.fit files tablePath planPath clock =
      ((fitRounds n.tolerance table params (clock.overtime n.seconds) n.rounds n.model).1,
        { n with
            model :=
              (fitRounds n.tolerance table params (clock.overtime n.seconds) n.rounds n.model).2
            beliefs := [] }) := by
  unfold fit
  rw [hread]

/-- Networks with the same tables and evidence reply the same to any calls. -/
theorem run_congr (hn : n.Fresh) (hm : m.Fresh) (hplain : m.plain = n.plain)
    (calls : List NetworkCall) : (run perform m calls).1 = (run perform n calls).1 := by
  have hfirst := run_afresh hm calls
  rw [hplain, run_afresh hn calls] at hfirst
  exact (congrArg Prod.fst hfirst).symm

/-! ## A triangle of variables -/

theorem contentOf_plain {files : FileTree} {name text : String} (hname : FileTree.PlainName name)
    (hfile : files.lookup? [name] = some (.file text)) : contentOf files name = .ok text := by
  unfold contentOf
  rw [FileTree.read?_of_lookup? (hname.place? files) hfile]

/-- Both states of the first variable have the same weight. -/
def triangleFactors (weight : ℚ) : List (Factor Nat ℚ) :=
  [⟨[0], [2], [(0, weight), (1, weight)]⟩, ⟨[0, 1], [2, 2], [(0, 3), (1, 1), (2, 1), (3, 3)]⟩,
    ⟨[1, 2], [2, 2], [(0, 1), (1, 1), (2, 1), (3, 1)]⟩,
    ⟨[0, 2], [2, 2], [(0, 1), (1, 1), (2, 1), (3, 1)]⟩]

/-- Two rounds, and no table over more than two variables. -/
def triangleOptions (seconds : Nat) : SolverOptions ℚ :=
  ⟨10, seconds, 1 / 1000000, 2, 4⟩

def triangleOf (weight : ℚ) (seconds : Nat) : ExactNetwork ℚ where
  model := ⟨[⟨[0], [2], #[weight, weight]⟩, ⟨[0, 1], [2, 2], #[3, 1, 1, 3]⟩,
    ⟨[1, 2], [2, 2], #[1, 1, 1, 1]⟩, ⟨[0, 2], [2, 2], #[1, 1, 1, 1]⟩], #[2, 2, 2], 4⟩
  evidence := []
  beliefs := []
  rounds := 2
  seconds
  tolerance := 1 / 1000000

def triangle : ExactNetwork ℚ :=
  triangleOf (1 / 2) 60

/-- Its weights are no distribution, and an estimation may take no time. -/
def hastyTriangle : ExactNetwork ℚ :=
  triangleOf 2 0

def triangleFiles : FileTree :=
  ⟨[(["full.tab"], .file "1\n\n1\n1\n0\n"), (["gap.tab"], .file "1\n\n1\n\n"),
    (["triangle.em"],
      .file "1\n\n1\nCondProbEstimation [target_dim=2,total_dim=2]\n1\n0\t0\n")]⟩

def fullTable : EvidenceTable :=
  ⟨[1], [[some true], [some true], [some false]]⟩

/-- The last row observes nothing, so no variable of the triangle is fixed. -/
def gapTable : EvidenceTable :=
  ⟨[1], [[some true], [none]]⟩

theorem triangleFactors_proper {weight : ℚ} (hweight : 0 ≤ weight) :
    ∀ f ∈ triangleFactors weight, f.Proper := by
  unfold triangleFactors
  intro f hf
  simp only [List.mem_cons, List.not_mem_nil, or_false] at hf
  rcases hf with rfl | rfl | rfl | rfl <;> constructor <;> simp [hweight]

theorem triangle_reachable : triangle.Reachable := by
  refine ⟨"triangle.fg", triangleOptions 60, triangleFactors (1 / 2), triangle, [],
    triangleFactors_proper (by norm_num), ?_, rfl⟩
  unfold triangle triangleOf triangleFactors
  rfl

theorem hastyTriangle_reachable : hastyTriangle.Reachable :=
  ⟨"triangle.fg", triangleOptions 0, triangleFactors 2, hastyTriangle, [],
    triangleFactors_proper (by norm_num), rfl, rfl⟩

theorem triangleOf_reads (weight : ℚ) (seconds : Nat) {tableName : String} (tableText : String)
    {table : EvidenceTable}
    (hname : FileTree.PlainName tableName)
    (hfile : triangleFiles.lookup? [tableName] = some (.file tableText))
    (hparse : (EvidenceTable.parse tableName tableText).toOption = some table)
    (hvars : table.vars = [1]) :
    (triangleOf weight seconds).readFitting triangleFiles tableName "triangle.em" =
      .ok (table, [⟨0, 0⟩]) := by
  have hplanName : FileTree.PlainName "triangle.em" := by
    constructor <;> decide +kernel
  have hplan : contentOf triangleFiles "triangle.em" =
      .ok "1\n\n1\nCondProbEstimation [target_dim=2,total_dim=2]\n1\n0\t0\n" :=
    contentOf_plain hplanName rfl
  have hread : (EstimatedFactor.readPlan "triangle.em"
      "1\n\n1\nCondProbEstimation [target_dim=2,total_dim=2]\n1\n0\t0\n").toOption =
        some [⟨0, 0⟩] := by
    decide +kernel
  unfold readFitting
  rw [contentOf_plain hname hfile, hplan]
  simp only [bind, Except.bind, eq_ok_of_toOption hparse, eq_ok_of_toOption hread]
  unfold checkVars
  rw [hvars]
  rfl

theorem triangleOf_reads_full (weight : ℚ) (seconds : Nat) :
    (triangleOf weight seconds).readFitting triangleFiles "full.tab" "triangle.em" =
      .ok (fullTable, [⟨0, 0⟩]) := by
  have hname : FileTree.PlainName "full.tab" := by
    constructor <;> decide +kernel
  apply triangleOf_reads weight seconds "1\n\n1\n1\n0\n" hname rfl _ rfl
  decide +kernel

theorem triangle_reads_gap : triangle.readFitting triangleFiles "gap.tab" "triangle.em" =
    .ok (gapTable, [⟨0, 0⟩]) := by
  have hname : FileTree.PlainName "gap.tab" := by
    constructor <;> decide +kernel
  apply triangleOf_reads (1 / 2) 60 "1\n\n1\n\n" hname rfl _ rfl
  decide +kernel

theorem triangleOf_binary (weight : ℚ) (seconds : Nat) {table : EvidenceTable}
    (hvars : table.vars = [1]) :
    ∀ v ∈ table.vars, 2 ≤ (triangleOf weight seconds).model.cards.getD v 0 := by
  rw [hvars, List.forall_mem_singleton]
  exact le_refl 2

/-! ## Fitting that succeeds and fitting that fails -/

/-- Fitting keeps the evidence and every table that the plan does not name.  In every round the
named tables keep their shape, have no negative values and stay zero where they were, and the same
rows are passed over.  When a row can be explained and the first round is allowed and begins in
time, the named tables become distributions; when no row can be explained or no round begins,
nothing changes. -/
theorem fit_reestimates (hn : n.Reachable)
    (hread : n.readFitting files tablePath planPath = .ok (table, params))
    (hbinary : ∀ v ∈ table.vars, 2 ≤ n.model.cards.getD v 0)
    (hok : (n.fit files tablePath planPath clock).1 = .ok ()) :
    (n.fit files tablePath planPath clock).2.evidence = n.evidence ∧
      (n.fit files tablePath planPath clock).2.model =
        (fitRounds n.tolerance table params (clock.overtime n.seconds) n.rounds n.model).2 ∧
      (∀ overtime rounds, n.model.Reestimated table params
        (fitRounds n.tolerance table params overtime rounds n.model).2) ∧
      ((∃ row ∈ table.rows, 0 < n.model.rowLikelihood table row) → 0 < n.rounds →
        clock.overtime n.seconds 0 = false →
          (n.fit files tablePath planPath clock).2.model.Distributed params) ∧
      ((∀ row ∈ table.rows, ¬ 0 < n.model.rowLikelihood table row) ∨ n.rounds = 0 ∨
          clock.overtime n.seconds 0 = true →
        (n.fit files tablePath planPath clock).2.model = n.model) := by
  obtain ⟨hsound, _⟩ := hn.keeps
  rw [fit_eq_fitRounds hread] at hok ⊢
  dsimp only at hok ⊢
  have hnoRound : n.rounds = 0 ∨ clock.overtime n.seconds 0 = true →
      (fitRounds n.tolerance table params (clock.overtime n.seconds) n.rounds n.model).2 =
        n.model := by
    intro hnone
    rw [fitRounds_in_time, roundsInTime_eq_zero_iff.mpr hnone]
    rfl
  refine ⟨rfl, rfl, ?_⟩
  rcases hsound.idle_or_fittable hbinary (readFitting_named hread) with hidle | ⟨hparams, hfit⟩
  · have hsame := fitRounds_same hidle n.tolerance table
    refine ⟨?_, ?_, ?_⟩
    · intro overtime rounds
      rw [hsame]
      exact hsound.reestimated_refl table params
    · rintro ⟨row, _, hpositive⟩ _ _
      rcases hidle with hnone | hempty
      · rw [hnone]
        intro p hp
        cases hp
      · rw [rowLikelihood_of_empty hempty] at hpositive
        exact absurd hpositive (lt_irrefl 0)
    · exact fun _ => hsame _ n.rounds
  · refine ⟨?_, ?_, ?_⟩
    · intro overtime rounds
      exact (Follows.fitRounds hfit hparams n.tolerance overtime rounds).reestimated hfit
    · rintro ⟨row, hrow, hpositive⟩ hrounds htime
      have hexplained : n.model.explained table ≠ [] :=
        List.ne_nil_of_mem (mem_explained.mpr ⟨hrow, hpositive⟩)
      exact hfit.fitRounds_ok_distributed hparams hexplained hrounds htime hok
    · rintro (hnone | hnone)
      · have hempty : n.model.explained table = [] := by
          unfold explained
          simpa using hnone
        exact hfit.fitRounds_unexplained hparams hempty n.tolerance _ n.rounds
      · exact hnoRound hnone

/-- Rows that observe one corner of the triangle leave a distribution for another. -/
theorem triangle_reestimated :
    triangle.readFitting triangleFiles "full.tab" "triangle.em" = .ok (fullTable, [⟨0, 0⟩]) ∧
      (triangle.fit triangleFiles "full.tab" "triangle.em").1 = .ok () ∧
      (triangle.fit triangleFiles "full.tab" "triangle.em").2.model.Distributed [⟨0, 0⟩] ∧
      ∀ overtime rounds, triangle.model.Reestimated fullTable [⟨0, 0⟩]
        (fitRounds triangle.tolerance fullTable [⟨0, 0⟩] overtime rounds triangle.model).2 := by
  have hread : triangle.readFitting triangleFiles "full.tab" "triangle.em" =
      .ok (fullTable, [⟨0, 0⟩]) := triangleOf_reads_full (1 / 2) 60
  have hok : (triangle.fit triangleFiles "full.tab" "triangle.em").1 = .ok () := by
    rw [fit_eq_fitRounds hread]
    apply eq_ok_of_toOption
    decide +kernel
  have hexplained : ∃ row ∈ fullTable.rows, 0 < triangle.model.rowLikelihood fullTable row := by
    decide +kernel
  obtain ⟨_, _, hrounds, hdistributed, _⟩ :=
    fit_reestimates triangle_reachable hread (triangleOf_binary _ _ rfl) hok
  exact ⟨hread, hok, hdistributed hexplained (by decide) (by decide), hrounds⟩

/-- Without any time no round begins, and weights that are no distribution stay as they are,
although a round would be allowed and a row could be explained. -/
theorem hastyTriangle_not_distributed :
    hastyTriangle.Reachable ∧
      hastyTriangle.readFitting triangleFiles "full.tab" "triangle.em" =
        .ok (fullTable, [⟨0, 0⟩]) ∧
      (∀ v ∈ fullTable.vars, 2 ≤ hastyTriangle.model.cards.getD v 0) ∧
      (hastyTriangle.fit triangleFiles "full.tab" "triangle.em").1 = .ok () ∧
      (∃ row ∈ fullTable.rows, 0 < hastyTriangle.model.rowLikelihood fullTable row) ∧
      1 ≤ hastyTriangle.rounds ∧
      ¬ (hastyTriangle.fit triangleFiles "full.tab" "triangle.em").2.model.Distributed
        [⟨0, 0⟩] := by
  have hread : hastyTriangle.readFitting triangleFiles "full.tab" "triangle.em" =
      .ok (fullTable, [⟨0, 0⟩]) := triangleOf_reads_full 2 0
  have hfit : hastyTriangle.fit triangleFiles "full.tab" "triangle.em" =
      (.ok (), hastyTriangle) := by
    rw [fit_eq_fitRounds hread, fitRounds_in_time]
    rfl
  have hexplained : ∃ row ∈ fullTable.rows,
      0 < hastyTriangle.model.rowLikelihood fullTable row := by
    decide +kernel
  rw [hfit]
  refine ⟨hastyTriangle_reachable, hread, triangleOf_binary 2 0 rfl, rfl, hexplained, by decide, ?_⟩
  intro hdistributed
  have htotal := hdistributed ⟨0, 0⟩ (List.mem_singleton_self _) _ rfl
  revert htotal
  decide +kernel

/-- Fitting that fails leaves the tables and the evidence, so the network replies to whatever comes
next as if fitting had not been called. -/
theorem failed_fit_changes_nothing (hn : n.Reachable)
    (hbinary : ∀ table params, n.readFitting files tablePath planPath = .ok (table, params) →
      ∀ v ∈ table.vars, 2 ≤ n.model.cards.getD v 0)
    {fault : SolverFault} (hfault : (n.fit files tablePath planPath clock).1 = .error fault) :
    (n.fit files tablePath planPath clock).2.model = n.model ∧
      (n.fit files tablePath planPath clock).2.evidence = n.evidence ∧
      ∀ calls, (run perform (n.fit files tablePath planPath clock).2 calls).1 =
        (run perform n calls).1 := by
  obtain ⟨hsound, hfresh⟩ := hn.keeps
  have hplain : (n.fit files tablePath planPath clock).2.plain = n.plain := by
    cases hread : n.readFitting files tablePath planPath with
    | error first =>
        unfold fit
        rw [hread]
    | ok fitting =>
        obtain ⟨table, params⟩ := fitting
        rw [fit_eq_fitRounds hread] at hfault ⊢
        have hmodel : (fitRounds n.tolerance table params (clock.overtime n.seconds) n.rounds
            n.model).2 = n.model := by
          have hnamed := readFitting_named hread
          rcases hsound.idle_or_fittable (hbinary table params hread) hnamed with
            hidle | ⟨hparams, hfit⟩
          · exact fitRounds_same hidle n.tolerance table _ n.rounds
          · exact hfit.fitRounds_error hparams hfault
        unfold plain
        dsimp only
        rw [hmodel]
  obtain ⟨hmodel, hevidence⟩ := eq_of_plain_eq hplain
  exact ⟨hmodel, hevidence,
    run_congr hfresh (fit_keeps hfresh files tablePath planPath clock).1 hplain⟩

/-- The row without an observation needs a table over all three variables. -/
theorem triangle_unchanged :
    (triangle.fit triangleFiles "gap.tab" "triangle.em").1 = .error (.tableTooLarge 8 4) ∧
      (triangle.fit triangleFiles "gap.tab" "triangle.em").2.model = triangle.model ∧
      (triangle.fit triangleFiles "gap.tab" "triangle.em").2.evidence = triangle.evidence ∧
      ∀ calls, (run perform (triangle.fit triangleFiles "gap.tab" "triangle.em").2 calls).1 =
        (run perform triangle calls).1 := by
  have hfault : (triangle.fit triangleFiles "gap.tab" "triangle.em").1 =
      .error (.tableTooLarge 8 4) := by
    rw [fit_eq_fitRounds triangle_reads_gap]
    decide +kernel
  refine ⟨hfault,
    failed_fit_changes_nothing triangle_reachable ?_ hfault⟩
  intro table params hread
  cases triangle_reads_gap.symm.trans hread
  exact triangleOf_binary _ _ rfl

end ExactNetwork

end DerivationBelief

import DerivationBelief.EstimationPlan
import DerivationBelief.Proofs.FactorGraphText
import Mathlib.Tactic

/-!
# Plans of estimation are read back

A plan is written as one step with a block for every parameter.  Only the line between the number of
steps and the number of blocks is blank, so the reader passes over it alone and takes every block
off as it was written.  The plan names each parameter as a factor and as the variable of the factor,
in order and with repetitions.
-/

namespace DerivationBelief.EstimatedFactor

open Text

variable {param : Nat} {params : List Nat}

/-- A parameter is both the factor to estimate and the variable that the factor is over. -/
def ofParameter (param : Nat) : EstimatedFactor :=
  ⟨param, param⟩

def blockLines (param : Nat) : List (List Char) :=
  [estimatorLine, ['1'], numbersLine '\t' [param, param]]

theorem planLines_eq (params : List Nat) :
    planLines params = natDigits 1 :: [] :: natDigits params.length :: params.flatMap blockLines :=
  rfl

/-! ## Lines of a plan -/

theorem estimatorLine_standing : Standing estimatorLine where
  oneLine := by
    have hall : estimatorLine.all (fun c => c ≠ '\n' ∧ c ≠ '\r') = true := by decide
    intro c hc
    exact of_decide_eq_true (List.all_eq_true.mp hall c hc)
  trim_eq := by decide
  counts := by decide

theorem parameterLine_standing (param : Nat) : Standing (numbersLine '\t' [param, param]) where
  oneLine := oneLine_joinWith (by decide)
    (fun piece hpiece => (isWord_of_numbers piece hpiece).oneLine)
  trim_eq := trim_joinWith '\t' isWord_of_numbers
  counts := by
    -- The line starts with the parameter and a blank as the line of both with a space does.
    have hnumber : NumberFirst (numbersLine ' ' [param, param]) := .numbers (List.cons_ne_nil _ _)
    have hhead : (numbersLine '\t' [param, param]).head? =
        (numbersLine ' ' [param, param]).head? := by
      exact (head?_joinWith '\t' (natDigits_ne_nil param) _).trans
        (head?_joinWith ' ' (natDigits_ne_nil param) _).symm
    refine ⟨?_, hhead ▸ hnumber.counts.2⟩
    intro hnil
    rw [hnil, List.head?_nil, eq_comm, List.head?_eq_none_iff] at hhead
    exact hnumber.counts.1 hhead

theorem blockLines_standing {line : List Char} (hline : line ∈ blockLines param) :
    Standing line := by
  simp only [blockLines, List.mem_cons, List.not_mem_nil, or_false] at hline
  rcases hline with rfl | rfl | rfl
  · exact estimatorLine_standing
  · exact (NumberFirst.number 1).standing
  · exact parameterLine_standing param

theorem planLines_standing : ∀ line ∈ planLines params, line = [] ∨ Standing line := by
  rw [planLines_eq, List.forall_mem_cons, List.forall_mem_cons, List.forall_mem_cons]
  refine ⟨Or.inr (NumberFirst.number 1).standing, Or.inl rfl,
    Or.inr (NumberFirst.number _).standing, ?_⟩
  intro line hline
  obtain ⟨param, _, hblock⟩ := List.mem_flatMap.mp hline
  exact Or.inr (blockLines_standing hblock)

theorem planLines_kept :
    (planLines params).filter (fun line => line ≠ []) =
      natDigits 1 :: natDigits params.length :: (params.flatMap blockLines ++ []) := by
  have hblocks : (params.flatMap blockLines).filter (fun line => line ≠ []) =
      params.flatMap blockLines := by
    rw [List.filter_eq_self]
    intro line hline
    obtain ⟨param, _, hblock⟩ := List.mem_flatMap.mp hline
    exact decide_eq_true (blockLines_standing hblock).counts.1
  rw [planLines_eq, List.filter_cons_of_pos (by simpa using natDigits_ne_nil 1),
    List.filter_cons_of_neg (by simp),
    List.filter_cons_of_pos (by simpa using natDigits_ne_nil params.length), hblocks,
    List.append_nil]

/-! ## Reading a plan -/

theorem shared_taken (hparam : param < word64) :
    LineReader.Takes readShared [numbersLine '\t' [param, param]] (ofParameter param) := by
  intro r texts hr
  have hparams : ∀ n ∈ [param, param], n < word64 := by simp [hparam]
  obtain ⟨place, next, hnumbers, hnext⟩ := LineReader.numbers_of_pending rfl hparams hr
  refine ⟨next, ?_, hnext⟩
  unfold readShared
  rw [hnumbers]
  rfl

theorem block_taken (hparam : param < word64) :
    LineReader.Takes readBlock (blockLines param) [ofParameter param] := by
  intro r texts hr
  obtain ⟨line, first, hline, htext, hfirst⟩ := LineReader.line_of_pending hr
  obtain ⟨second, hcount, hsecond⟩ :=
    LineReader.number_of_pending (n := 1) (by decide) hfirst
  have hshared : ∀ entry ∈ [param], LineReader.Takes readShared
      [numbersLine '\t' [entry, entry]] (ofParameter entry) := by
    rw [List.forall_mem_singleton]
    exact shared_taken hparam
  obtain ⟨last, hread, hlast⟩ := LineReader.Takes.repeated hshared second texts hsecond
  refine ⟨last, ?_, hlast⟩
  have hestimator : estimator.isPrefixOf line.text = true := by
    rw [htext]
    decide
  unfold readBlock
  rw [hline]
  simp only [bind, Except.bind, hestimator, if_true, hcount]
  exact hread

theorem step_taken (hcount : params.length < word64) (hparams : ∀ param ∈ params, param < word64) :
    LineReader.Takes readStep (natDigits params.length :: params.flatMap blockLines)
      (params.map ofParameter) := by
  intro r texts hr
  obtain ⟨next, hnumber, hnext⟩ := LineReader.number_of_pending hcount hr
  obtain ⟨last, hread, hlast⟩ :=
    LineReader.Takes.repeated (fun param hparam => block_taken (hparams param hparam)) next texts
      hnext
  refine ⟨last, ?_, hlast⟩
  have hflat : (params.map (fun param => [ofParameter param])).flatten =
      params.map ofParameter := by
    rw [← List.flatMap_def, ← List.map_eq_flatMap]
  unfold readStep
  rw [hnumber]
  simp only [bind, Except.bind, hread]
  rw [hflat]
  rfl

/-- Reading the text of a plan gives its parameters, each as a factor and its variable. -/
theorem readPlan_planText (hcount : params.length < word64)
    (hparams : ∀ param ∈ params, param < word64) (label : String) :
    readPlan label (planText params) = .ok (params.map ofParameter) := by
  have hpending : (LineReader.ofText label (planText params)).pending = _ :=
    LineReader.pending_ofText label planLines_standing
  rw [planLines_kept] at hpending
  obtain ⟨next, hnumber, hnext⟩ := LineReader.number_of_pending (n := 1) (by decide) hpending
  obtain ⟨last, hread, _⟩ := step_taken hcount hparams next [] hnext
  unfold readPlan
  rw [hnumber]
  simp only [bind, Except.bind, LineReader.repeated, hread]
  simp [pure, Except.pure]

end DerivationBelief.EstimatedFactor

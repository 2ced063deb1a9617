import DerivationBelief.Outcome
import DerivationBelief.ParameterFitting
import Mathlib.Tactic

/-!
# Fitting in place

Fitting may use the network itself as its workspace: the evidence is set aside, every row is bound
in its place, every round overwrites the tables, and in the end the evidence is put back and the
remembered beliefs are forgotten.  However a run of rounds ends, nothing but the evidence and the
model has been touched, and the model is that of the rounds which bind no row.  So fitting in place
leaves the same network as fitting with the rows apart, whether it succeeds or fails.
-/

namespace DerivationBelief

namespace ExactNetwork

variable {α : Type} [Scalar α]

/-- Bind the rows one after the other in place of the evidence and add their beliefs.  The last row
that was looked at stays bound. -/
def expectInPlace (vars : List Nat) (params : List EstimatedFactor) :
    List (List (Option Bool)) → Expectation α → ExactNetwork α →
      Outcome SolverFault (Expectation α) (ExactNetwork α)
  | [], e, n => (.ok e, n)
  | row :: rows, e, n =>
      let bound := { n with evidence := TableNetwork.rowEvidence vars row }
      match params.mapM (fun p => bound.model.belief bound.evidence p.var) with
      | .ok beliefs =>
          let sums := e.sums.zipWith (fun sum belief => sum.zipWith (· + ·) belief) beliefs
          expectInPlace vars params rows ⟨sums, e.used + 1⟩ bound
      | .error .inconsistentEvidence => expectInPlace vars params rows e bound
      | .error fault => (.error fault, bound)

/-- At most the given number of rounds, while there is time, each of which overwrites the tables. -/
def roundsInPlace (table : EvidenceTable) (params : List EstimatedFactor) :
    (Nat → Bool) → Nat → ExactNetwork α → Outcome SolverFault Unit (ExactNetwork α)
  | _, 0, n => (.ok (), n)
  | overtime, rounds + 1, n =>
      if overtime 0 then (.ok (), n)
      else
        match expectInPlace table.vars params table.rows ⟨n.model.zeroSums params, 0⟩ n with
        | (.error fault, n) => (.error fault, n)
        | (.ok e, n) =>
            if e.used = 0 then (.ok (), n)
            else
              let m := n.model.maximise params e
              let fitted := { n with model := m.model }
              if Scalar.less m.change n.tolerance then (.ok (), fitted)
              else roundsInPlace table params (fun round => overtime (round + 1)) rounds fitted

/-- Fit with the network as the workspace.  At every exit behind the reading of the files, the
evidence is put back and the beliefs are forgotten. -/
def fitInPlace (n : ExactNetwork α) (tree : FileTree) (tablePath planPath : String)
    (clock : Clock) : Outcome SolverFault Unit (ExactNetwork α) :=
  match n.readFitting tree tablePath planPath with
  | .error fault => (.error fault, n)
  | .ok (table, params) =>
      let saved := n.evidence
      let (result, fitted) :=
        roundsInPlace table params (clock.overtime n.seconds) n.rounds { n with evidence := [] }
      (result, { fitted with evidence := saved, beliefs := [] })

theorem expectInPlace_eq (vars : List Nat) (params : List EstimatedFactor)
    (rows : List (List (Option Bool))) (e : Expectation α) (n : ExactNetwork α) :
    ∃ evidence, expectInPlace vars params rows e n =
      (rows.foldlM (n.model.expectRow vars params) e, { n with evidence }) := by
  induction rows generalizing e n with
  | nil => exact ⟨n.evidence, rfl⟩
  | cons row rows ih =>
      unfold expectInPlace
      rw [List.foldlM_cons]
      unfold TableNetwork.expectRow
      dsimp only
      cases params.mapM (fun p => n.model.belief (TableNetwork.rowEvidence vars row) p.var) with
      | ok beliefs => exact ih _ { n with evidence := TableNetwork.rowEvidence vars row }
      | error fault =>
          cases fault with
          | inconsistentEvidence =>
              exact ih _ { n with evidence := TableNetwork.rowEvidence vars row }
          | unreadable _ | malformed _ _ _ | tableTooLarge _ _ | variableOutOfRange _ _
          | factorOutOfRange _ _ => exact ⟨_, rfl⟩

/-- The rounds leave the model of the rounds that bind no row, and touch the evidence besides. -/
theorem roundsInPlace_eq (table : EvidenceTable) (params : List EstimatedFactor)
    (overtime : Nat → Bool) (rounds : Nat) (n : ExactNetwork α) :
    ∃ evidence, roundsInPlace table params overtime rounds n =
      let fitted := TableNetwork.fitRounds n.tolerance table params overtime rounds n.model
      (fitted.1, { n with evidence, model := fitted.2 }) := by
  induction rounds generalizing overtime n with
  | zero => exact ⟨n.evidence, rfl⟩
  | succ rounds ih =>
      obtain ⟨evidence, hrows⟩ :=
        expectInPlace_eq table.vars params table.rows ⟨n.model.zeroSums params, 0⟩ n
      unfold roundsInPlace TableNetwork.fitRounds TableNetwork.expect
      rw [hrows]
      by_cases hlate : overtime 0 = true
      · rw [if_pos hlate, if_pos hlate]
        exact ⟨n.evidence, rfl⟩
      · rw [if_neg hlate, if_neg hlate]
        cases table.rows.foldlM (n.model.expectRow table.vars params)
            ⟨n.model.zeroSums params, 0⟩ with
        | error fault => exact ⟨evidence, rfl⟩
        | ok e =>
            dsimp only
            split
            next => exact ⟨evidence, rfl⟩
            next =>
              split
              next => exact ⟨evidence, rfl⟩
              next => exact ih _ { n with evidence, model := (n.model.maximise params e).model }

theorem fitInPlace_eq (n : ExactNetwork α) (tree : FileTree) (tablePath planPath : String)
    (clock : Clock) :
    n.fitInPlace tree tablePath planPath clock = n.fit tree tablePath planPath clock := by
  unfold fitInPlace fit
  cases n.readFitting tree tablePath planPath with
  | error fault => rfl
  | ok fitting =>
      obtain ⟨table, params⟩ := fitting
      obtain ⟨evidence, hrounds⟩ :=
        roundsInPlace_eq table params (clock.overtime n.seconds) n.rounds { n with evidence := [] }
      dsimp only at hrounds ⊢
      rw [hrounds]

end ExactNetwork

end DerivationBelief

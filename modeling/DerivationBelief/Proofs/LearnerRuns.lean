import DerivationBelief.Learner
import DerivationBelief.Proofs.DifferentiatingRuns
import DerivationBelief.Proofs.FittingRuns
import DerivationBelief.Proofs.IteratingAnswers
import DerivationBelief.Proofs.OneShotRuns
import Mathlib.Tactic

/-!
# Questions leave later answers alone

Learners of all kinds keep track of the batches that were appended, and whatever they answer is
determined by these.  A question may compile networks, update priors, fit parameters, remember
beliefs and write files, and it may fail in the middle of that; still a learner that was never asked
gives the same answers afterwards.
-/

namespace DerivationBelief

variable {α : Type} [Scalar α] [Numeral α]

def LearnerCall.isAppend : LearnerCall → Bool
  | .append _ => true
  | .query _ | .posterior _ => false

omit [Scalar α] [Numeral α] in
theorem CausalGraph.appended_append (g : CausalGraph α)
    (calls more : List (LearnerCall × Workspace)) :
    g.appended (calls ++ more) = g.appended calls ++ g.appended more :=
  List.filterMap_append

omit [Scalar α] [Numeral α] in
theorem CausalGraph.appended_of_question (g : CausalGraph α) {call : LearnerCall}
    (hcall : call.isAppend = false) (w : Workspace) : g.appended [(call, w)] = [] := by
  cases call with
  | append records => cases hcall
  | query node => rfl
  | posterior dist => rfl

omit [Scalar α] [Numeral α] in
/-- Two runs that make the same appends append the same batches, wherever they take place. -/
theorem CausalGraph.appended_of_appends (g : CausalGraph α)
    {calls appends : List (LearnerCall × Workspace)}
    (happends : appends.map Prod.fst = (calls.map Prod.fst).filter LearnerCall.isAppend) :
    g.appended appends = g.appended calls := by
  induction calls generalizing appends with
  | nil =>
      cases List.map_eq_nil_iff.mp happends
      rfl
  | cons entry calls ih =>
      rw [List.map_cons] at happends
      rw [appended_cons g entry]
      cases hcall : entry.1.isAppend with
      | false =>
          rw [List.filter_cons_of_neg (by simp [hcall])] at happends
          rw [show entry = (entry.1, entry.2) from rfl, g.appended_of_question hcall,
            List.nil_append, ih happends]
      | true =>
          rw [List.filter_cons_of_pos hcall] at happends
          obtain ⟨first, rest, rfl, hfirst, hrest⟩ := List.map_eq_cons_iff.mp happends
          have hsame : g.appended [first] = g.appended [entry] := by
            unfold appended
            simp only [List.filterMap_cons, List.filterMap_nil, hfirst]
          rw [appended_cons, hsame, ih hrest]

namespace Learner

/-! ## Runs -/

def perform (l : Learner α) (w : Workspace) : LearnerCall → Learner α
  | .append records => (l.append w (.ofRecords records)).1
  | .query node => (l.query w node).2.1
  | .posterior dist => (l.posterior w dist).2.1

/-- Make calls one after the other, each in a workspace as it happens to be. -/
def run (l : Learner α) (calls : List (LearnerCall × Workspace)) : Learner α :=
  calls.foldl (fun l entry => l.perform entry.2 entry.1) l

theorem kind_perform (l : Learner α) (w : Workspace) (call : LearnerCall) :
    (l.perform w call).kind = l.kind := by
  cases l <;> cases call <;> rfl

theorem kind_run (l : Learner α) (calls : List (LearnerCall × Workspace)) :
    (l.run calls).kind = l.kind := by
  induction calls generalizing l with
  | nil => rfl
  | cons entry calls ih => exact (ih _).trans (l.kind_perform entry.2 entry.1)

/-! ## What every call keeps -/

/-- What is known of a learner that has taken a history.  A differentiating learner reads it with
the graph that it made of the given one. -/
def Reflects (name : String) (c : LearnerContext α) (g : CausalGraph α)
    (calls : List (LearnerCall × Workspace)) : Learner α → Prop
  | .iterating l => IteratingLearner.Follows c g (g.appended calls) l
  | .oneShot l => OneShotLearner.Serves name c g (g.appended calls) l
  | .fitting l => FittingLearner.Fits c g (g.appended calls) l
  | .differentiating l => ∃ base,
      DifferentiatingLearner.canonicalGraph c.ruleProbability g = .ok base ∧
        DifferentiatingLearner.Grows name c base (base.appended calls) l

variable {name : String} {c : LearnerContext α} {g : CausalGraph α}
  {calls : List (LearnerCall × Workspace)} {l : Learner α}

theorem Reflects.new {kind : LearnerKind} (hl : new kind name c g = .ok l) :
    l.Reflects name c g [] := by
  cases kind with
  | iterating =>
      cases hl
      exact IteratingLearner.Follows.new name c g
  | oneShot =>
      cases hl
      exact OneShotLearner.Serves.new name c g
  | fitting =>
      cases hl
      exact FittingLearner.Fits.new name c g
  | differentiating =>
      unfold Learner.new at hl
      cases hnew : DifferentiatingLearner.new name c g with
      | error fault =>
          rw [hnew] at hl
          cases hl
      | ok start =>
          rw [hnew] at hl
          cases hl
          obtain ⟨hbase, hstart⟩ := DifferentiatingLearner.Grows.new hnew
          exact ⟨_, hbase, hstart⟩

/-- Only the batches count. -/
theorem Reflects.of_appended {others : List (LearnerCall × Workspace)}
    (hl : l.Reflects name c g calls)
    (hothers : ∀ graph : CausalGraph α, graph.appended others = graph.appended calls) :
    l.Reflects name c g others := by
  cases l with
  | iterating l =>
      unfold Reflects
      rw [hothers]
      exact hl
  | oneShot l =>
      unfold Reflects
      rw [hothers]
      exact hl
  | fitting l =>
      unfold Reflects
      rw [hothers]
      exact hl
  | differentiating l =>
      obtain ⟨base, hbase, hgrows⟩ := hl
      exact ⟨base, hbase, (hothers base).symm ▸ hgrows⟩

theorem Reflects.append (hl : l.Reflects name c g calls) (w : Workspace)
    (records : List (String × Bool)) :
    (l.append w (.ofRecords records)).1.Reflects name c g (calls ++ [(.append records, w)]) := by
  cases l with
  | iterating l =>
      unfold Reflects
      rw [CausalGraph.appended_append]
      exact IteratingLearner.Follows.append hl w (.ofRecords records)
  | oneShot l =>
      unfold Reflects
      rw [CausalGraph.appended_append]
      exact OneShotLearner.Serves.append hl (.ofRecords records)
  | fitting l =>
      unfold Reflects
      rw [CausalGraph.appended_append]
      exact FittingLearner.Fits.append hl (.ofRecords records)
  | differentiating l =>
      obtain ⟨base, hbase, hgrows⟩ := hl
      refine ⟨base, hbase, ?_⟩
      rw [CausalGraph.appended_append]
      exact hgrows.append w (.ofRecords records)

theorem Reflects.query (hl : l.Reflects name c g calls) (w : Workspace) (node : String) :
    (l.query w node).2.1.Reflects name c g calls := by
  cases l with
  | iterating l => exact IteratingLearner.Follows.query hl w node
  | oneShot l => exact OneShotLearner.Serves.query hl w node
  | fitting l => exact FittingLearner.Fits.query hl w node
  | differentiating l =>
      obtain ⟨base, hbase, hgrows⟩ := hl
      exact ⟨base, hbase, hgrows.query w node⟩

theorem Reflects.posterior (hl : l.Reflects name c g calls) (w : Workspace) (dist : Nat) :
    (l.posterior w dist).2.1.Reflects name c g calls := by
  cases l with
  | iterating l => exact IteratingLearner.Follows.posterior hl w dist
  | oneShot l => exact OneShotLearner.Serves.posterior hl w dist
  | fitting l => exact FittingLearner.Fits.posterior hl w dist
  | differentiating l =>
      obtain ⟨base, hbase, hgrows⟩ := hl
      exact ⟨base, hbase, hgrows.posterior w dist⟩

theorem Reflects.perform (hl : l.Reflects name c g calls) (w : Workspace) (call : LearnerCall) :
    (l.perform w call).Reflects name c g (calls ++ [(call, w)]) := by
  -- A question appends nothing, so the batches are those from before.
  have hquestion : call.isAppend = false → ∀ graph : CausalGraph α,
      graph.appended (calls ++ [(call, w)]) = graph.appended calls := by
    intro hcall graph
    rw [graph.appended_append, graph.appended_of_question hcall, List.append_nil]
  cases call with
  | append records => exact hl.append w records
  | query node => exact (hl.query w node).of_appended (hquestion rfl)
  | posterior dist => exact (hl.posterior w dist).of_appended (hquestion rfl)

theorem Reflects.run (hl : l.Reflects name c g calls)
    (more : List (LearnerCall × Workspace)) :
    (l.run more).Reflects name c g (calls ++ more) := by
  induction more generalizing l calls with
  | nil => exact (List.append_nil calls).symm ▸ hl
  | cons entry more ih =>
      have hrest := ih (hl.perform entry.2 entry.1)
      rwa [List.append_assoc] at hrest

/-! ## Agreement -/

/-- Wherever both learners answer, they give the same answer. -/
structure Agree (l other : Learner α) : Prop where
  query : ∀ {w w' : Workspace} {node : String} {p q : α},
    (l.query w node).1 = .ok p → (other.query w' node).1 = .ok q → p = q
  posterior : ∀ {w w' : Workspace} {dist : Nat} {p q : List α},
    (l.posterior w dist).1 = .ok p → (other.posterior w' dist).1 = .ok q → p = q

/-- Learners of one kind with the same history agree. -/
theorem Reflects.agree {other : Learner α} (hl : l.Reflects name c g calls)
    (hother : other.Reflects name c g calls) (hkind : l.kind = other.kind) : l.Agree other := by
  cases l with
  | iterating l =>
      cases other with
      | iterating other =>
          exact ⟨IteratingLearner.Follows.query_agrees hl hother,
            IteratingLearner.Follows.posterior_agrees hl hother⟩
      | oneShot _ | fitting _ | differentiating _ => cases hkind
  | oneShot l =>
      cases other with
      | oneShot other =>
          exact ⟨OneShotLearner.Serves.query_agrees hl hother,
            OneShotLearner.Serves.posterior_agrees hl hother⟩
      | iterating _ | fitting _ | differentiating _ => cases hkind
  | fitting l =>
      cases other with
      | fitting other =>
          have halike := (FittingLearner.fitted_reproducible
            (FittingLearner.ofHistory c g (g.appended calls))).alike
          exact ⟨FittingLearner.Fits.query_agrees halike hl hother,
            FittingLearner.Fits.posterior_agrees halike hl hother⟩
      | iterating _ | oneShot _ | differentiating _ => cases hkind
  | differentiating l =>
      cases other with
      | differentiating other =>
          obtain ⟨base, hbase, hgrows⟩ := hl
          obtain ⟨same, hsame, hagain⟩ := hother
          cases hbase.symm.trans hsame
          exact ⟨hgrows.query_agrees hagain, hgrows.posterior_agrees hagain⟩
      | iterating _ | oneShot _ | fitting _ => cases hkind

/-- A run with questions and one that makes its appends only, each in workspaces as they happen to
be: wherever both come to an answer in the end, it is the same one. -/
theorem answers_unaffected_by_questions {kind : LearnerKind} (hl : new kind name c g = .ok l)
    {appends : List (LearnerCall × Workspace)}
    (happends : appends.map Prod.fst = (calls.map Prod.fst).filter LearnerCall.isAppend)
    (w w' : Workspace) :
    (∀ node p q, ((l.run calls).query w node).1 = .ok p →
      ((l.run appends).query w' node).1 = .ok q → p = q) ∧
    ∀ dist p q, ((l.run calls).posterior w dist).1 = .ok p →
      ((l.run appends).posterior w' dist).1 = .ok q → p = q := by
  have hasked : (l.run calls).Reflects name c g calls := (Reflects.new hl).run calls
  have hunasked : (l.run appends).Reflects name c g calls :=
    Reflects.of_appended ((Reflects.new hl).run appends)
      (fun graph => (graph.appended_of_appends happends).symm)
  have hkind : (l.run calls).kind = (l.run appends).kind :=
    (l.kind_run calls).trans (l.kind_run appends).symm
  have hagree := hasked.agree hunasked hkind
  exact ⟨fun _ _ _ => hagree.query, fun _ _ _ => hagree.posterior⟩

/-! ## A street that was asked about -/

section Street

open OneShotLearner FactorGraph

theorem wetStreet_answer {l : OneShotLearner ℚ} {history : List Batch}
    (hl : Serves "street" (streetContext 2) wetStreet history l) (hdirty : l.state = .dirty)
    (hlossless : LosslessFor "street" (streetContext 2) wetStreet history.length) {file : String}
    (hfile : (streetContext 2).fileOf (networkName "street" history.length) = file)
    (hname : FileTree.PlainName file) {p : ℚ}
    (hvalue : (do
      let f ← (compile wetStreet history.length true 2).toOption
      let backend ← (ExactNetwork.ofFactors file (streetContext 2).options f.factors).toOption
      let bound ← (bindHistory (ReplicaNetwork.ofCompiled (networkName "street" history.length) file
        wetStreet.nodeCount history.length f.layout backend) history).toOption
      (bound.predict 0).1.toOption) = some p) :
    (l.query quietWorkspace "rain").1 = .ok p := by
  have hid : l.graph.nodeId? "rain" = some 0 := by
    rw [hl.graph_eq]
    rfl
  unfold OneShotLearner.query
  rw [hid]
  exact wetStreet_asked (hl.recordQuery 0 "rain") hdirty hlossless hfile hname hvalue

/-- Rain is likely on a street that was seen wet, whatever was asked before that. -/
theorem wetStreet_seen {l : OneShotLearner ℚ}
    (hl : Serves "street" (streetContext 2) wetStreet [[(1, true)]] l) (hdirty : l.state = .dirty) :
    (l.query quietWorkspace "rain").1 = .ok (7 / 10) := by
  have hfile : (streetContext 2).fileOf (networkName "street" 1) = "street_1.fg" := by
    decide +kernel
  have hname : FileTree.PlainName "street_1.fg" := by
    constructor <;> decide +kernel
  apply wetStreet_answer hl hdirty wetStreet_lossless hfile hname
  decide +kernel

/-- Asking for rain and for its odds, before the street was seen wet, changes nothing. -/
theorem wetStreet_unaffected_by_questions :
    let start : Learner ℚ := .oneShot (.new "street" (streetContext 2) wetStreet)
    let appends : List (LearnerCall × Workspace) := [(.append [("wet", true)], quietWorkspace)]
    let calls : List (LearnerCall × Workspace) :=
      [(.query "rain", quietWorkspace), (.posterior 0, quietWorkspace)] ++ appends
    Learner.new .oneShot "street" (streetContext 2) wetStreet = .ok start ∧
      appends.map Prod.fst = (calls.map Prod.fst).filter LearnerCall.isAppend ∧
      ∃ p q, ((start.run calls).query quietWorkspace "rain").1 = .ok p ∧
        ((start.run appends).query quietWorkspace "rain").1 = .ok q ∧ p = q := by
  intro start appends calls
  have hnew : Learner.new .oneShot "street" (streetContext 2) wetStreet = .ok start := rfl
  have hserves : ∀ made,
      Serves "street" (streetContext 2) wetStreet (wetStreet.appended made)
        ((OneShotLearner.new "street" (streetContext 2) wetStreet).run made) :=
    fun made => (Serves.new "street" (streetContext 2) wetStreet).run made
  have hp : ((start.run calls).query quietWorkspace "rain").1 = .ok (7 / 10) :=
    wetStreet_seen (hserves calls) rfl
  have hq : ((start.run appends).query quietWorkspace "rain").1 = .ok (7 / 10) :=
    wetStreet_seen (hserves appends) rfl
  exact ⟨hnew, rfl, _, _, hp, hq,
    (answers_unaffected_by_questions hnew (rfl : appends.map Prod.fst = _) quietWorkspace
      quietWorkspace).1 "rain" _ _ hp hq⟩

end Street

end Learner

end DerivationBelief

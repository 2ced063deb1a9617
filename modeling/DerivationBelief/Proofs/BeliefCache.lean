import DerivationBelief.Proofs.FittingInPlace
import DerivationBelief.Proofs.NetworkAnswers
import DerivationBelief.Proofs.OneShotRuns
import Mathlib.Tactic

/-!
# Remembered beliefs are never stale

A network is called in any order: states are observed, all observations are taken back, evidence is
propagated, parameters are fitted, beliefs are asked for.  What it remembers is, after every call,
what its tables give under its evidence.  So it replies like a network without a memory, and between
two calls that change something questions may be repeated and put in any order.
-/

namespace DerivationBelief

/-- A call to a loaded network.  Files are as the call finds them, and a fit has its own clock. -/
inductive NetworkCall where
  | observe (var : Nat) (value : Bool)
  | reset
  | propagate
  | fit (tree : FileTree) (tablePath planPath : String) (clock : Clock)
  | queryTruth (var : Nat)
  | queryStates (var : Nat)

inductive NetworkReply (α : Type) where
  | done (result : Except SolverFault Unit)
  | truth (result : Except SolverFault α)
  | states (result : Except SolverFault (List α))

namespace NetworkCall

/-- Calls that neither bind evidence nor touch a table. -/
def IsQuestion : NetworkCall → Prop
  | .propagate | .queryTruth _ | .queryStates _ => True
  | .observe _ _ | .reset | .fit _ _ _ _ => False

/-- The evidence in force behind a call.  A state that the variable has is added, a reset takes back
everything, and no other call counts. -/
def inForce {α : Type} (model : TableNetwork α) (evidence : Evidence) : NetworkCall → Evidence
  | .observe var value =>
      match model.cardOf var with
      | .ok card => if value.toNat < card then Arrival.put evidence var value.toNat else evidence
      | .error _ => evidence
  | .reset => []
  | .propagate | .fit _ _ _ _ | .queryTruth _ | .queryStates _ => evidence

end NetworkCall

variable {α : Type} [Scalar α]

/-! ## What fitting keeps -/

namespace TableNetwork

theorem maximise_cards (n : TableNetwork α) (params : List EstimatedFactor) (e : Expectation α) :
    (n.maximise params e).model.cards = n.cards := by
  unfold maximise
  generalize params.zip e.sums = entries
  suffices hentries : ∀ m : Maximising α,
      (entries.foldl (maximiseParam e.used) m).model.cards = m.model.cards from hentries ⟨n, 0⟩
  induction entries with
  | nil => exact fun m => rfl
  | cons entry entries ih =>
      intro m
      rw [List.foldl_cons, ih]
      unfold maximiseParam
      split <;> rfl

theorem fitRounds_cards (tolerance : α) (table : EvidenceTable) (params : List EstimatedFactor)
    (overtime : Nat → Bool) (rounds : Nat) (n : TableNetwork α) :
    (fitRounds tolerance table params overtime rounds n).2.cards = n.cards := by
  induction rounds generalizing overtime n with
  | zero => rfl
  | succ rounds ih =>
      unfold fitRounds
      split
      next => rfl
      next =>
        cases n.expect table params with
        | error fault => rfl
        | ok e =>
            dsimp only
            split
            next => rfl
            next =>
              split
              next => exact n.maximise_cards params e
              next => rw [ih, n.maximise_cards params e]

end TableNetwork

omit [Scalar α] in
/-- Which observations are accepted depends on the cardinalities alone. -/
theorem NetworkCall.inForce_congr {n m : TableNetwork α} (hcards : m.cards = n.cards) :
    NetworkCall.inForce m = NetworkCall.inForce n := by
  have hcard : ∀ var, m.cardOf var = n.cardOf var := by
    intro var
    unfold TableNetwork.cardOf
    rw [hcards]
  funext evidence call
  unfold NetworkCall.inForce
  cases call with
  | observe var value =>
      dsimp only
      rw [hcard]
  | reset | propagate | fit _ _ _ _ | queryTruth _ | queryStates _ => rfl

namespace ExactNetwork

/-! ## Calls -/

/-- The network without what it remembers. -/
def plain (n : ExactNetwork α) : ExactNetwork α :=
  { n with beliefs := [] }

/-- The reply to a call, with the network that the call leaves. -/
def perform (n : ExactNetwork α) : NetworkCall → NetworkReply α × ExactNetwork α
  | .observe var value =>
      match n.observe var value with
      | .ok next => (.done (.ok ()), next)
      | .error fault => (.done (.error fault), n)
  | .reset => (.done (.ok ()), n.reset)
  | .propagate => (.done n.propagate, n)
  | .fit tree tablePath planPath clock =>
      let (result, next) := n.fit tree tablePath planPath clock
      (.done result, next)
  | .queryTruth var =>
      let (result, next) := n.queryTruth var
      (.truth result, next)
  | .queryStates var =>
      let (result, next) := n.queryStates var
      (.states result, next)

/-- The reply of a network without a memory, which computes every belief that it is asked for. -/
def performAfresh (n : ExactNetwork α) : NetworkCall → NetworkReply α × ExactNetwork α
  | .queryTruth var =>
      (.truth ((n.model.belief n.evidence var).map (fun belief => belief.getD 1 0)), n)
  | .queryStates var => (.states (n.model.belief n.evidence var), n)
  | call => n.perform call

/-- The replies to calls one after the other, with the network that the last one leaves. -/
def run (step : ExactNetwork α → NetworkCall → NetworkReply α × ExactNetwork α) :
    ExactNetwork α → List NetworkCall → List (NetworkReply α) × ExactNetwork α
  | n, [] => ([], n)
  | n, call :: calls =>
      let (reply, next) := step n call
      let (replies, last) := run step next calls
      (reply :: replies, last)

/-! ## One call -/

variable {n : ExactNetwork α}

theorem Fresh.of_forgotten (hbeliefs : n.beliefs = []) : n.Fresh := by
  intro v belief hbelief
  rw [hbeliefs] at hbelief
  cases hbelief

theorem queryTruth_spec (hn : n.Fresh) (v : Nat) :
    (n.queryTruth v).1 =
        (n.model.belief n.evidence v).map (fun belief => belief.getD 1 0) ∧
      (n.queryTruth v).2 = (n.queryStates v).2 := by
  unfold queryTruth
  rw [← (queryStates_spec hn v).1]
  exact ⟨rfl, rfl⟩

theorem queryStates_plain (n : ExactNetwork α) (v : Nat) : (n.queryStates v).2.plain = n.plain := by
  unfold queryStates
  split
  · rfl
  · split <;> rfl

/-- However fitting ends, the evidence and the cardinalities are those of before, and nothing stale
is remembered. -/
theorem fit_keeps (hn : n.Fresh) (tree : FileTree) (tablePath planPath : String)
    (clock : Clock) :
    (n.fit tree tablePath planPath clock).2.Fresh ∧
      (n.fit tree tablePath planPath clock).2.evidence = n.evidence ∧
      (n.fit tree tablePath planPath clock).2.model.cards = n.model.cards := by
  unfold fit
  cases n.readFitting tree tablePath planPath with
  | error fault => exact ⟨hn, rfl, rfl⟩
  | ok fitting =>
      obtain ⟨table, params⟩ := fitting
      exact ⟨.of_forgotten rfl, rfl, TableNetwork.fitRounds_cards _ _ _ _ _ _⟩

/-- What a network remembers plays no part in fitting. -/
theorem fit_plain (n : ExactNetwork α) (tree : FileTree) (tablePath planPath : String)
    (clock : Clock) :
    n.plain.fit tree tablePath planPath clock =
      ((n.fit tree tablePath planPath clock).1,
        (n.fit tree tablePath planPath clock).2.plain) := by
  unfold fit
  have hread : n.plain.readFitting tree tablePath planPath =
      n.readFitting tree tablePath planPath := rfl
  rw [hread]
  cases n.readFitting tree tablePath planPath with
  | error fault => rfl
  | ok fitting => rfl

omit [Scalar α] in
theorem observe_cases (n : ExactNetwork α) (var : Nat) (value : Bool) :
    (∃ fault, n.observe var value = .error fault ∧
      NetworkCall.inForce n.model n.evidence (.observe var value) = n.evidence) ∨
    n.observe var value = .ok { n with
        evidence := NetworkCall.inForce n.model n.evidence (.observe var value)
        beliefs := [] } := by
  unfold observe NetworkCall.inForce
  dsimp only
  cases n.model.cardOf var with
  | error fault => exact Or.inl ⟨fault, rfl, rfl⟩
  | ok card =>
      dsimp only [bind, Except.bind, pure, Except.pure]
      by_cases hcard : card ≤ value.toNat
      · rw [if_pos hcard, if_neg (Nat.not_lt.mpr hcard)]
        exact Or.inl ⟨_, rfl, rfl⟩
      · rw [if_neg hcard, if_pos (Nat.lt_of_not_le hcard)]
        exact Or.inr rfl

/-- After every call the memory is right, the evidence is the one in force, and every variable has
the states it had. -/
theorem perform_keeps (hn : n.Fresh) (call : NetworkCall) :
    (n.perform call).2.Fresh ∧
      (n.perform call).2.evidence = NetworkCall.inForce n.model n.evidence call ∧
      (n.perform call).2.model.cards = n.model.cards := by
  cases call with
  | observe var value =>
      unfold perform
      dsimp only
      rcases n.observe_cases var value with ⟨fault, hfault, hforce⟩ | hok
      · rw [hfault]
        exact ⟨hn, hforce.symm, rfl⟩
      · rw [hok]
        exact ⟨.of_forgotten rfl, rfl, rfl⟩
  | reset => exact ⟨.of_forgotten rfl, rfl, rfl⟩
  | propagate => exact ⟨hn, rfl, rfl⟩
  | fit tree tablePath planPath clock => exact fit_keeps hn tree tablePath planPath clock
  | queryTruth var =>
      obtain ⟨_, hmodel, hevidence, hfresh⟩ := queryStates_spec hn var
      exact ⟨hfresh, hevidence, congrArg TableNetwork.cards hmodel⟩
  | queryStates var =>
      obtain ⟨_, hmodel, hevidence, hfresh⟩ := queryStates_spec hn var
      exact ⟨hfresh, hevidence, congrArg TableNetwork.cards hmodel⟩

/-- The memory cannot be noticed in one call. -/
theorem perform_afresh (hn : n.Fresh) (call : NetworkCall) :
    n.plain.performAfresh call = ((n.perform call).1, (n.perform call).2.plain) := by
  cases call with
  | observe var value =>
      unfold performAfresh perform
      have hobserve : n.plain.observe var value = n.observe var value := rfl
      dsimp only
      rw [hobserve]
      rcases n.observe_cases var value with ⟨fault, hfault, _⟩ | hok
      · rw [hfault]
      · rw [hok]
        rfl
  | reset | propagate => rfl
  | fit tree tablePath planPath clock =>
      unfold performAfresh perform
      dsimp only
      rw [fit_plain]
  | queryTruth var =>
      obtain ⟨hanswer, hnext⟩ := queryTruth_spec hn var
      unfold performAfresh perform
      dsimp only
      rw [hanswer, hnext, queryStates_plain]
      rfl
  | queryStates var =>
      unfold performAfresh perform
      dsimp only
      rw [(queryStates_spec hn var).1, queryStates_plain]
      rfl

/-- A question leaves the tables and the evidence. -/
theorem question_plain (n : ExactNetwork α) {question : NetworkCall}
    (hquestion : question.IsQuestion) : (n.perform question).2.plain = n.plain := by
  cases question with
  | observe _ _ | reset | fit _ _ _ _ => cases hquestion
  | propagate => rfl
  | queryTruth var => exact queryStates_plain n var
  | queryStates var => exact queryStates_plain n var

/-- Networks with the same tables and evidence reply the same. -/
theorem perform_congr {m : ExactNetwork α} (hn : n.Fresh) (hm : m.Fresh)
    (hplain : m.plain = n.plain) (call : NetworkCall) :
    (m.perform call).1 = (n.perform call).1 := by
  have hfirst := perform_afresh hm call
  rw [hplain, perform_afresh hn call] at hfirst
  exact (congrArg Prod.fst hfirst).symm

/-! ## Any calls -/

theorem run_keeps (hn : n.Fresh) (calls : List NetworkCall) :
    (run perform n calls).2.Fresh ∧
      (run perform n calls).2.evidence = calls.foldl (NetworkCall.inForce n.model) n.evidence := by
  induction calls generalizing n with
  | nil => exact ⟨hn, rfl⟩
  | cons call calls ih =>
      obtain ⟨hfresh, hevidence, hcards⟩ := perform_keeps hn call
      obtain ⟨hlast, hbound⟩ := ih hfresh
      refine ⟨hlast, hbound.trans ?_⟩
      rw [NetworkCall.inForce_congr hcards, hevidence]
      rfl

/-- The memory cannot be noticed in any run. -/
theorem run_afresh (hn : n.Fresh) (calls : List NetworkCall) :
    run performAfresh n.plain calls =
      ((run perform n calls).1, (run perform n calls).2.plain) := by
  induction calls generalizing n with
  | nil => rfl
  | cons call calls ih =>
      unfold run
      rw [perform_afresh hn call]
      dsimp only
      rw [ih (perform_keeps hn call).1]

/-- Each of several questions is replied to as if it were the only one. -/
theorem run_questions (hn : n.Fresh) {questions : List NetworkCall}
    (hquestions : ∀ question ∈ questions, question.IsQuestion) :
    (run perform n questions).1 = questions.map (fun question => (n.perform question).1) ∧
      (run perform n questions).2.plain = n.plain := by
  suffices hlater : ∀ m : ExactNetwork α, m.Fresh → m.plain = n.plain →
      (run perform m questions).1 = questions.map (fun question => (n.perform question).1) ∧
        (run perform m questions).2.plain = n.plain from hlater n hn rfl
  induction questions with
  | nil => exact fun m _ hplain => ⟨rfl, hplain⟩
  | cons question questions ih =>
      intro m hm hplain
      rw [List.forall_mem_cons] at hquestions
      have hnext : (m.perform question).2.plain = n.plain :=
        (question_plain m hquestions.1).trans hplain
      obtain ⟨hreplies, hlast⟩ :=
        ih hquestions.2 _ (perform_keeps hm question).1 hnext
      refine ⟨?_, hlast⟩
      rw [List.map_cons, ← hreplies, ← perform_congr hn hm hplain]
      rfl

/-! ## Loaded networks -/

section Loaded

variable [Numeral α] {tree : FileTree} {path : String} {options : SolverOptions α}

theorem load_forgotten (hn : load tree path options = .ok n) :
    n.evidence = [] ∧ n.beliefs = [] := by
  obtain ⟨text, _, hn⟩ := bind_eq_ok_iff.mp hn
  obtain ⟨factors, _, hn⟩ := bind_eq_ok_iff.mp hn
  obtain ⟨model, _, hn⟩ := bind_eq_ok_iff.mp hn
  cases hn
  exact ⟨rfl, rfl⟩

/-- Whatever calls a loaded network has had, its replies are those of a network without a memory,
and what it is asked next it answers from its tables under the evidence in force.  Questions may be
repeated and put in any order, and fitting may use the network itself as its workspace. -/
theorem cache_never_stale (hn : load tree path options = .ok n) (calls : List NetworkCall) :
    let later := (run perform n calls).2
    run performAfresh n calls = ((run perform n calls).1, later.plain) ∧
      (∀ v, (later.queryStates v).1 = later.model.belief later.evidence v ∧
        (later.queryTruth v).1 =
          (later.model.belief later.evidence v).map (fun belief => belief.getD 1 0)) ∧
      later.evidence = calls.foldl (NetworkCall.inForce n.model) [] ∧
      (∀ questions : List NetworkCall, (∀ question ∈ questions, question.IsQuestion) →
        (run perform later questions).1 =
            questions.map (fun question => (later.perform question).1) ∧
          (run perform later questions).2.plain = later.plain) ∧
      ∀ (files : FileTree) (tablePath planPath : String) (clock : Clock),
        later.fitInPlace files tablePath planPath clock =
          later.fit files tablePath planPath clock := by
  obtain ⟨hevidence, hbeliefs⟩ := load_forgotten hn
  have hfresh : n.Fresh := .of_forgotten hbeliefs
  obtain ⟨hlater, hbound⟩ := run_keeps hfresh calls
  refine ⟨?_, ?_, ?_, ?_, fitInPlace_eq _⟩
  case refine_1 =>
    have hplain : n.plain = n := by
      unfold plain
      rw [← hbeliefs]
    have hrun := run_afresh hfresh calls
    rwa [hplain] at hrun
  case refine_2 => exact fun v => ⟨(queryStates_spec hlater v).1, (queryTruth_spec hlater v).1⟩
  case refine_3 => rw [hbound, hevidence]
  case refine_4 => exact fun questions hquestions => run_questions hlater hquestions

end Loaded

/-! ## A coin and its face -/

section Coin

def coinFiles : FileTree :=
  ⟨[(["coin.fg"],
      .file "2\n\n1\n0\n2\n2\n0 0.5\n1 0.5\n\n2\n0 1\n2 2\n4\n0 1\n1 0\n2 0\n3 1\n"),
    (["coin.tab"], .file "1\n\n1\n0\n1\n"),
    (["coin.em"], .file "1\n\n1\nCondProbEstimation [target_dim=2,total_dim=2]\n1\n0\t0\n")]⟩

def coinCalls : List NetworkCall :=
  [.observe 1 true, .queryTruth 0, .fit coinFiles "coin.tab" "coin.em" .steady, .queryTruth 0,
    .reset, .queryStates 0]

theorem coinFiles_loaded :
    ∃ n, load (α := ℚ) coinFiles "coin.fg" .default = .ok n := by
  have hname : FileTree.PlainName "coin.fg" := by
    constructor <;> decide +kernel
  obtain ⟨text, htext, hloads⟩ : ∃ text,
      coinFiles.lookup? ["coin.fg"] = some (.file text) ∧
        ((Factor.parseAll (α := ℚ) "coin.fg" text).bind
          (ofFactors "coin.fg" .default)).toOption.isSome := by
    refine ⟨_, rfl, ?_⟩
    decide +kernel
  have hread := FileTree.read?_of_lookup? (hname.place? coinFiles) htext
  obtain ⟨n, hn⟩ := Option.isSome_iff_exists.mp hloads
  refine ⟨n, ?_⟩
  unfold load contentOf
  rw [hread]
  exact eq_ok_of_toOption hn

/-- The face is seen, the coin is fitted to one throw, and the face is forgotten again. -/
theorem coin_never_stale :
    ∃ n, load (α := ℚ) coinFiles "coin.fg" .default = .ok n ∧
      let later := (run perform n coinCalls).2
      run performAfresh n coinCalls = ((run perform n coinCalls).1, later.plain) ∧
        (∀ v, (later.queryStates v).1 = later.model.belief later.evidence v ∧
          (later.queryTruth v).1 =
            (later.model.belief later.evidence v).map (fun belief => belief.getD 1 0)) ∧
        later.evidence = coinCalls.foldl (NetworkCall.inForce n.model) [] ∧
        (∀ questions : List NetworkCall, (∀ question ∈ questions, question.IsQuestion) →
          (run perform later questions).1 =
              questions.map (fun question => (later.perform question).1) ∧
            (run perform later questions).2.plain = later.plain) ∧
        ∀ (files : FileTree) (tablePath planPath : String) (clock : Clock),
          later.fitInPlace files tablePath planPath clock =
            later.fit files tablePath planPath clock := by
  obtain ⟨n, hn⟩ := coinFiles_loaded
  exact ⟨n, hn, cache_never_stale hn coinCalls⟩

end Coin

end ExactNetwork

end DerivationBelief

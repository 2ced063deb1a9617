import DerivationBelief.FittingLearner
import DerivationBelief.Proofs.ReproducibleAnswers
import Mathlib.Tactic

/-!
# Fitting to the history alone

The parameters are fitted to what stands in two files, a table of the history and a plan of the
estimation.  Both have just been written, so the fitted network depends on the graph and the history
and on nothing else in the workspace.  Questions leave the history alone, and a learner that has
been asked answers as one that has not.
-/

namespace DerivationBelief

variable {α : Type} [Scalar α]

namespace ExactNetwork

variable {n : ExactNetwork α} {tree other : FileTree} {tablePath planPath : String}
  {clock : Clock}

theorem fit_congr (htable : tree.read? tablePath = other.read? tablePath)
    (hplan : tree.read? planPath = other.read? planPath) :
    n.fit tree tablePath planPath clock = n.fit other tablePath planPath clock := by
  unfold fit readFitting contentOf
  rw [htable, hplan]

/-- Fitting forgets all beliefs. -/
theorem fit_fresh {next : ExactNetwork α}
    (hfit : n.fit tree tablePath planPath clock = (.ok (), next)) : next.Fresh := by
  unfold fit at hfit
  split at hfit
  · cases hfit
  · have hnext := (congrArg Prod.snd hfit).symm
    dsimp only at hnext
    subst hnext
    intro v belief hbelief
    cases hbelief

end ExactNetwork

namespace ReplicaNetwork

variable {n : ReplicaNetwork α} {directory name : String} {history : List Batch} {clock : Clock}

/-- What fitting does: the table and the plan are written and then fitted to. -/
theorem fit_ok {tree last : FileTree} {fitted : ReplicaNetwork α}
    (hfit : n.fit tree directory name history clock = (.ok (), fitted, last)) :
    ∃ middle backend next,
      tree.write? (joinPath directory (name ++ ".tab")) (n.historyTable history).text =
        some middle ∧
      middle.write? (joinPath directory (name ++ ".em"))
        (EstimatedFactor.planText (List.range n.offset)) = some last ∧
      n.backend = some backend ∧
      backend.fit last (joinPath directory (name ++ ".tab")) (joinPath directory (name ++ ".em"))
        clock = (.ok (), next) ∧
      fitted = { n with backend := some next, activated := true } := by
  unfold fit EvidenceTable.write EstimatedFactor.writePlan at hfit
  dsimp only at hfit
  split at hfit
  · cases hfit
  cases htable : tree.write? (joinPath directory (name ++ ".tab"))
      (n.historyTable history).text with
  | none =>
      rw [htable] at hfit
      cases hfit
  | some middle =>
      rw [htable] at hfit
      dsimp only at hfit
      cases hplan : middle.write? (joinPath directory (name ++ ".em"))
          (EstimatedFactor.planText (List.range n.offset)) with
      | none =>
          rw [hplan] at hfit
          cases hfit
      | some written =>
          rw [hplan] at hfit
          unfold loaded at hfit
          cases hbackend : n.backend with
          | none =>
              rw [hbackend] at hfit
              cases hfit
          | some backend =>
              rw [hbackend] at hfit
              dsimp only at hfit
              split at hfit
              next next hnext =>
                cases hfit
                exact ⟨middle, backend, next, rfl, hplan, rfl, hnext, rfl⟩
              next => cases hfit

/-- Fitting comes to one network, whatever else the files are. -/
theorem fit_unique {tree last other otherLast : FileTree} {fitted again : ReplicaNetwork α}
    (hfit : n.fit tree directory name history clock = (.ok (), fitted, last))
    (hagain : n.fit other directory name history clock = (.ok (), again, otherLast)) :
    fitted = again := by
  obtain ⟨middle, backend, next, htable, hplan, hbackend, hnext, rfl⟩ := fit_ok hfit
  obtain ⟨otherMiddle, same, otherNext, hotherTable, hotherPlan, hsame, hotherNext, rfl⟩ :=
    fit_ok hagain
  cases hbackend.symm.trans hsame
  obtain ⟨hreadTable, hreadPlan⟩ := FileTree.read?_of_writes htable hplan hotherTable hotherPlan
  rw [ExactNetwork.fit_congr hreadTable hreadPlan, hotherNext] at hnext
  cases hnext
  rfl

theorem fit_ready {tree last : FileTree} {fitted : ReplicaNetwork α}
    (hfit : n.fit tree directory name history clock = (.ok (), fitted, last)) :
    ∃ backend, fitted.backend = some backend ∧ backend.Fresh := by
  obtain ⟨_, _, next, _, _, _, hnext, rfl⟩ := fit_ok hfit
  exact ⟨next, rfl, ExactNetwork.fit_fresh hnext⟩

end ReplicaNetwork

namespace FittingLearner

open ReplicaNetwork

variable [Numeral α] {l : FittingLearner α}

/-- A fitted network is a created one, fitted to the history unless this is empty. -/
theorem fitted_ok {w : Workspace} {n : ReplicaNetwork α} (hn : (l.fitted w).1 = .ok n) :
    ∃ created, (l.context.createNetwork w ("em_" ++ threeDigits l.history.length) l.graph 0
        false).1 = .ok created ∧
      ((l.history = [] ∧ n = created) ∨ (l.history ≠ [] ∧ ∃ tree last,
        created.fit tree l.context.directory ("em_" ++ threeDigits l.history.length) l.history
          (l.context.clocks l.history.length) = (.ok (), n, last))) := by
  unfold fitted at hn
  dsimp only at hn
  split at hn
  · cases hn
  next created w' hcreate =>
    refine ⟨created, by rw [hcreate], ?_⟩
    split at hn
    next hempty =>
      cases hn
      exact Or.inl ⟨List.isEmpty_iff.mp hempty, rfl⟩
    next hsome =>
      split at hn
      · cases hn
      next fittedNetwork files hfit =>
        cases hn
        exact Or.inr ⟨fun hnil => hsome (List.isEmpty_iff.mpr hnil), _, _, hfit⟩

theorem fitted_reproducible (l : FittingLearner α) : Reproducible l.fitted where
  ready := by
    intro w n hn
    obtain ⟨created, hcreated, ⟨_, rfl⟩ | ⟨_, tree, last, hfit⟩⟩ := fitted_ok hn
    · exact (l.context.createNetwork_reproducible _ _ _ _).ready hcreated
    · exact fit_ready hfit
  unique := by
    intro w w' n m hn hm
    obtain ⟨created, hcreated, hfirst⟩ := fitted_ok hn
    obtain ⟨other, hother, hsecond⟩ := fitted_ok hm
    cases (l.context.createNetwork_reproducible _ _ _ _).unique hcreated hother
    rcases hfirst with ⟨hnil, rfl⟩ | ⟨hsome, tree, last, hfit⟩
    · rcases hsecond with ⟨_, rfl⟩ | ⟨hsome, _⟩
      · rfl
      · exact absurd hnil hsome
    · rcases hsecond with ⟨hnil, _⟩ | ⟨_, otherTree, otherLast, hagain⟩
      · exact absurd hnil hsome
      · exact fit_unique hfit hagain

/-! ## What every call keeps -/

/-- A learner that has taken a history and has not been asked. -/
def ofHistory (c : LearnerContext α) (g : CausalGraph α) (history : List Batch) :
    FittingLearner α :=
  { new "" c g with history := history.map g.dropContradictions }

/-- What is known of a learner between calls. -/
structure Fits (c : LearnerContext α) (g : CausalGraph α) (history : List Batch)
    (l : FittingLearner α) : Prop where
  graph_eq : l.graph = g
  history_eq : l.history = history.map g.dropContradictions
  context_eq : l.context = { c with queried := l.context.queried }
  held : l.state = .clean → ∀ n, l.network = some n →
    AnswersAsBuilt (ofHistory c g history).fitted n

variable {c : LearnerContext α} {g : CausalGraph α} {history : List Batch}

theorem Fits.new (name : String) (c : LearnerContext α) (g : CausalGraph α) :
    Fits c g [] (new name c g) where
  graph_eq := rfl
  history_eq := rfl
  context_eq := rfl
  held := by
    intro hstate
    cases hstate

theorem Fits.fitted_eq (hl : Fits c g history l) :
    l.fitted = (ofHistory c g history).fitted := by
  funext w
  unfold fitted
  rw [hl.graph_eq, hl.history_eq, hl.context_eq]
  rfl

theorem Fits.refresh (hl : Fits c g history l) (w : Workspace) :
    Fits c g history (l.refresh w).2.1 ∧
      ∀ n, (l.refresh w).1 = .ok n → AnswersAsBuilt (ofHistory c g history).fitted n := by
  -- The old network is given up first, so a failure leaves the learner without any.
  have hreleased : Fits c g history { l with network := none } :=
    { hl with
      held := by
        intro _ n hn
        cases hn }
  unfold FittingLearner.refresh
  split
  next network hstate hnetwork =>
    refine ⟨hl, ?_⟩
    intro n hn
    cases hn
    exact hl.held hstate network hnetwork
  next =>
    dsimp only
    rw [hreleased.fitted_eq]
    split
    · exact ⟨hreleased, fun _ hn => nomatch hn⟩
    next network w' hbuilt =>
      have hheld : AnswersAsBuilt (ofHistory c g history).fitted network :=
        (fitted_reproducible _).asBuilt (congrArg Prod.fst hbuilt)
      refine ⟨?_, ?_⟩
      · exact { hl with
          held := by
            intro _ n hn
            cases hn
            exact hheld }
      · intro n hn
        cases hn
        exact hheld

theorem Fits.ask {β : Type} (hl : Fits c g history l)
    {question : ReplicaNetwork α → Outcome NetworkFault β (ReplicaNetwork α)}
    (hquestion : Neutral question) (w : Workspace) :
    Fits c g history (ReplicaNetwork.ask question keep (l.refresh w)).2.1 := by
  obtain ⟨hrefreshed, hok⟩ := hl.refresh w
  refine ask_keeps (AnswersAsBuilt (ofHistory c g history).fitted) (Fits c g history)
    (fun n hn => hn.asked hquestion) hrefreshed hok ?_
  intro n hn
  exact { hrefreshed with
    held := by
      intro _ next hnext
      cases hnext
      exact hn }

theorem Fits.recordQuery (hl : Fits c g history l) (id : Nat) (node : String) :
    Fits c g history { l with context := l.context.recordQuery id node } :=
  { hl with
    context_eq := LearnerContext.recordQuery_eq hl.context_eq id node }

theorem Fits.append (hl : Fits c g history l) (observation : Observation) :
    Fits c g (history ++ [g.batchOf observation]) (l.append observation) where
  graph_eq := hl.graph_eq
  history_eq := by
    unfold FittingLearner.append
    dsimp only
    rw [hl.history_eq, hl.graph_eq, List.map_append, List.map_singleton]
  context_eq := hl.context_eq
  held := by
    intro hstate
    cases hstate

theorem Fits.query (hl : Fits c g history l) (w : Workspace) (node : String) :
    Fits c g history (l.query w node).2.1 := by
  unfold FittingLearner.query
  split
  · exact hl
  next id _ => exact (hl.recordQuery id node).ask (predict_neutral id) w

theorem Fits.posterior (hl : Fits c g history l) (w : Workspace) (dist : Nat) :
    Fits c g history (l.posterior w dist).2.1 :=
  hl.ask (posterior_neutral dist) w

section Alike

variable {c' : LearnerContext α} {others : List Batch} {other : FittingLearner α}

/-- Learners whose histories are fitted alike come to networks of the same answers. -/
theorem Fits.refresh_same
    (halike : BuildAlike (ofHistory c g history).fitted (ofHistory c' g others).fitted)
    (hl : Fits c g history l) (hother : Fits c' g others other) {w w' : Workspace}
    {n m : ReplicaNetwork α} (hn : (l.refresh w).1 = .ok n) (hm : (other.refresh w').1 = .ok m) :
    n.SameAnswers m :=
  ((hl.refresh w).2 n hn).same halike ((hother.refresh w').2 m hm)

/-- Learners whose histories are fitted alike agree on a node wherever both answer. -/
theorem Fits.query_agrees
    (halike : BuildAlike (ofHistory c g history).fitted (ofHistory c' g others).fitted)
    (hl : Fits c g history l) (hother : Fits c' g others other) {w w' : Workspace} {node : String}
    {p q : α} (hp : (l.query w node).1 = .ok p) (hq : (other.query w' node).1 = .ok q) :
    p = q := by
  unfold FittingLearner.query at hp hq
  have hnode : l.graph.nodeId? node = g.nodeId? node := by rw [hl.graph_eq]
  have hsame : other.graph.nodeId? node = g.nodeId? node := by rw [hother.graph_eq]
  rw [hnode] at hp
  rw [hsame] at hq
  cases hid : g.nodeId? node with
  | none =>
      rw [hid] at hp
      cases hp
  | some id =>
      rw [hid] at hp hq
      exact (predict_neutral id).ask_agrees
        (fun _ _ => Fits.refresh_same halike (hl.recordQuery id node)
          (hother.recordQuery id node)) hp hq

theorem Fits.posterior_agrees
    (halike : BuildAlike (ofHistory c g history).fitted (ofHistory c' g others).fitted)
    (hl : Fits c g history l) (hother : Fits c' g others other) {w w' : Workspace} {dist : Nat}
    {p q : List α} (hp : (l.posterior w dist).1 = .ok p)
    (hq : (other.posterior w' dist).1 = .ok q) : p = q :=
  (posterior_neutral dist).ask_agrees (fun _ _ => Fits.refresh_same halike hl hother) hp hq

end Alike

end FittingLearner

end DerivationBelief

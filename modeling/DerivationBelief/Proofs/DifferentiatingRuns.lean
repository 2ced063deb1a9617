import DerivationBelief.DifferentiatingLearner
import DerivationBelief.Proofs.ReproducibleAnswers
import Mathlib.Tactic

/-!
# Growing with the history alone

The grown graph depends on the graph and the rounds of counted observations.  Questions add neither
a round nor a node, so a learner that has been asked grows and answers as one that has not.
-/

namespace DerivationBelief

variable {α : Type} [Scalar α]

namespace DifferentiatingLearner

open ReplicaNetwork

/-- Counts and rounds, and those with one more batch. -/
def countRound (state : List (Nat × ObservationCount) × List (List (Nat × α))) (batch : Batch) :
    List (Nat × ObservationCount) × List (List (Nat × α)) :=
  let (counts, round) := countBatch state.1 batch
  (counts, state.2 ++ [round])

/-- The counts and rounds that a history leaves behind. -/
def countAll (history : List Batch) : List (Nat × ObservationCount) × List (List (Nat × α)) :=
  history.foldl countRound ([], [])

theorem countAll_append (history : List Batch) (batch : Batch) :
    countAll (α := α) (history ++ [batch]) = countRound (countAll history) batch := by
  unfold countAll
  rw [List.foldl_append]
  rfl

variable [Numeral α]

/-- The network of the grown graph, with what was observed. -/
def build (l : DifferentiatingLearner α) (w : Workspace) :
    Outcome (LearnerFault α) (ReplicaNetwork α) Workspace :=
  match l.differentiate with
  | .error fault => (.error fault, w)
  | .ok g => l.observed w g

variable {l : DifferentiatingLearner α}

theorem observed_ok {w : Workspace} {g : CausalGraph α} {n : ReplicaNetwork α}
    (hn : (l.observed w g).1 = .ok n) :
    ∃ created, (l.context.createNetwork w (l.name ++ s!"_{l.rounds.length}") g 0 false).1 =
        .ok created ∧
      created.bindBatch ((l.observationNodes g).map (fun node => (node, true))) 0 = .ok n := by
  unfold observed at hn
  split at hn
  · cases hn
  next created w' hcreate => exact ⟨created, congrArg Prod.fst hcreate, hn⟩

theorem build_ok {w : Workspace} {n : ReplicaNetwork α} (hn : (l.build w).1 = .ok n) :
    ∃ g, l.differentiate = .ok g ∧ (l.observed w g).1 = .ok n := by
  unfold build at hn
  split at hn
  · cases hn
  next g hg => exact ⟨g, hg, hn⟩

theorem build_reproducible (l : DifferentiatingLearner α) : Reproducible l.build where
  ready := by
    intro w n hn
    obtain ⟨g, _, hobserved⟩ := build_ok hn
    obtain ⟨created, hcreated, hbound⟩ := observed_ok hobserved
    obtain ⟨backend, hbackend, hfresh⟩ :=
      (l.context.createNetwork_reproducible _ _ _ _).ready hcreated
    obtain ⟨bound, hbind, rfl⟩ := bindBatch_ok hbackend hbound
    exact ⟨bound, rfl, ExactNetwork.bind?_fresh hfresh hbind⟩
  unique := by
    intro w w' n m hn hm
    obtain ⟨g, hg, hobserved⟩ := build_ok hn
    obtain ⟨other, hother, hagain⟩ := build_ok hm
    cases hg.symm.trans hother
    obtain ⟨created, hcreated, hbound⟩ := observed_ok hobserved
    obtain ⟨same, hsame, hrebound⟩ := observed_ok hagain
    cases (l.context.createNetwork_reproducible _ _ _ _).unique hcreated hsame
    exact Except.ok.inj (hbound.symm.trans hrebound)

/-! ## What every call keeps -/

/-- A learner that has taken a history and has not been asked. -/
def ofHistory (name : String) (c : LearnerContext α) (g : CausalGraph α)
    (history : List Batch) : DifferentiatingLearner α where
  name
  context := c
  graph := g
  counts := (countAll (α := α) history).1
  rounds := (countAll history).2
  differentiated := none
  network := none
  state := .dirty

/-- What is known of a learner between calls. -/
structure Grows (name : String) (c : LearnerContext α) (g : CausalGraph α)
    (history : List Batch) (l : DifferentiatingLearner α) : Prop where
  name_eq : l.name = name
  graph_eq : l.graph = g
  counted : (l.counts, l.rounds) = countAll history
  context_eq : l.context = { c with queried := l.context.queried }
  held : l.state = .clean → ∀ n, l.network = some n →
    AnswersAsBuilt (ofHistory name c g history).build n

variable {name : String} {c : LearnerContext α} {g : CausalGraph α} {history : List Batch}

theorem Grows.new {graph : CausalGraph α} (hnew : new name c graph = .ok l) :
    canonicalGraph c.ruleProbability graph = .ok l.graph ∧ Grows name c l.graph [] l := by
  obtain ⟨canonical, hcanonical, hl⟩ := bind_eq_ok_iff.mp hnew
  cases hl
  refine ⟨hcanonical, ?_⟩
  constructor
  case name_eq => rfl
  case graph_eq => rfl
  case counted => rfl
  case context_eq => rfl
  case held =>
    intro hstate
    cases hstate

/-- What is built does not depend on what has been asked. -/
theorem Grows.build_eq (hl : Grows name c g history l) :
    l.build = (ofHistory name c g history).build := by
  have hcounts : l.counts = (countAll (α := α) history).1 := congrArg Prod.fst hl.counted
  have hrounds : l.rounds = (countAll (α := α) history).2 := congrArg Prod.snd hl.counted
  have hsame : l = { ofHistory name c g history with
      context := { c with queried := l.context.queried }
      differentiated := l.differentiated
      network := l.network
      state := l.state } := by
    obtain ⟨_, _, _, _, _, _, _, _⟩ := l
    cases hl.name_eq
    cases hl.graph_eq
    cases hcounts
    cases hrounds
    congr 1
    exact hl.context_eq
  rw [hsame]
  rfl

/-- Refreshing keeps a current network and builds one otherwise. -/
theorem refresh_cases (l : DifferentiatingLearner α) (w : Workspace) :
    (∃ n, l.state = .clean ∧ l.network = some n ∧ l.refresh w = (.ok n, l, w)) ∨
    (∃ fault w', l.refresh w = (.error fault, l, w') ∨
      l.refresh w = (.error fault, { l with network := none }, w')) ∨
    ∃ n g w' w'', (l.build w').1 = .ok n ∧ l.refresh w =
      (.ok n, { l with differentiated := some g, network := some n, state := .clean }, w'') := by
  unfold refresh
  split
  next network hstate hnetwork => exact Or.inl ⟨network, hstate, hnetwork, rfl⟩
  next =>
    right
    split
    next fault w' _ => exact Or.inl ⟨fault, w', Or.inl rfl⟩
    next w' _ =>
      split
      next fault _ => exact Or.inl ⟨fault, w', Or.inl rfl⟩
      next g hg =>
        dsimp only
        split
        next fault w'' _ => exact Or.inl ⟨fault, w'', Or.inr rfl⟩
        next n w'' hobserved =>
          refine Or.inr ⟨n, g, w', w'', ?_, rfl⟩
          unfold build
          rw [hg]
          exact congrArg Prod.fst hobserved

theorem Grows.refresh (hl : Grows name c g history l) (w : Workspace) :
    Grows name c g history (l.refresh w).2.1 ∧
      ∀ n, (l.refresh w).1 = .ok n → AnswersAsBuilt (ofHistory name c g history).build n := by
  rcases l.refresh_cases w with ⟨n, hstate, hnetwork, hrefresh⟩ |
    ⟨fault, w', hrefresh | hrefresh⟩ | ⟨n, grown, w', w'', hbuilt, hrefresh⟩
  · rw [hrefresh]
    refine ⟨hl, ?_⟩
    intro m hm
    cases hm
    exact hl.held hstate n hnetwork
  · rw [hrefresh]
    exact ⟨hl, fun _ hm => nomatch hm⟩
  · rw [hrefresh]
    refine ⟨?_, fun _ hm => nomatch hm⟩
    exact { hl with
      held := by
        intro _ m hm
        cases hm }
  · rw [hrefresh]
    rw [hl.build_eq] at hbuilt
    have hheld : AnswersAsBuilt (ofHistory name c g history).build n :=
      (build_reproducible _).asBuilt hbuilt
    refine ⟨?_, ?_⟩
    · exact { hl with
        held := by
          intro _ m hm
          cases hm
          exact hheld }
    · intro m hm
      cases hm
      exact hheld

theorem Grows.ask {β : Type} (hl : Grows name c g history l)
    {question : ReplicaNetwork α → Outcome NetworkFault β (ReplicaNetwork α)}
    (hquestion : Neutral question) (w : Workspace) :
    Grows name c g history (ReplicaNetwork.ask question keep (l.refresh w)).2.1 := by
  obtain ⟨hrefreshed, hok⟩ := hl.refresh w
  refine ask_keeps (AnswersAsBuilt (ofHistory name c g history).build) (Grows name c g history)
    (fun n hn => hn.asked hquestion) hrefreshed hok ?_
  intro n hn
  exact { hrefreshed with
    held := by
      intro _ next hnext
      cases hnext
      exact hn }

theorem Grows.recordQuery (hl : Grows name c g history l) (id : Nat) (node : String) :
    Grows name c g history { l with context := l.context.recordQuery id node } :=
  { hl with
    context_eq := LearnerContext.recordQuery_eq hl.context_eq id node }

theorem Grows.append (hl : Grows name c g history l) (w : Workspace)
    (observation : Observation) :
    Grows name c g (history ++ [g.batchOf observation]) (l.append w observation).1 where
  name_eq := hl.name_eq
  graph_eq := hl.graph_eq
  counted := by
    change countRound (l.counts, l.rounds) (l.graph.batchOf observation) = _
    rw [hl.counted, hl.graph_eq, countAll_append]
  context_eq := hl.context_eq
  held := by
    intro hstate
    cases hstate

theorem Grows.query (hl : Grows name c g history l) (w : Workspace) (node : String) :
    Grows name c g history (l.query w node).2.1 := by
  unfold DifferentiatingLearner.query
  split
  · exact hl
  next id _ => exact (hl.recordQuery id node).ask (predict_neutral id) w

theorem Grows.posterior (hl : Grows name c g history l) (w : Workspace) (dist : Nat) :
    Grows name c g history (l.posterior w dist).2.1 :=
  hl.ask (posterior_neutral dist) w

/-- Learners with the same history come to networks of the same answers. -/
theorem Grows.refresh_same {other : DifferentiatingLearner α} (hl : Grows name c g history l)
    (hother : Grows name c g history other) {w w' : Workspace} {n m : ReplicaNetwork α}
    (hn : (l.refresh w).1 = .ok n) (hm : (other.refresh w').1 = .ok m) : n.SameAnswers m :=
  ((hl.refresh w).2 n hn).same (build_reproducible _).alike ((hother.refresh w').2 m hm)

/-- Learners with the same history agree on a node wherever both answer. -/
theorem Grows.query_agrees {other : DifferentiatingLearner α} (hl : Grows name c g history l)
    (hother : Grows name c g history other) {w w' : Workspace} {node : String} {p q : α}
    (hp : (l.query w node).1 = .ok p) (hq : (other.query w' node).1 = .ok q) : p = q := by
  unfold DifferentiatingLearner.query at hp hq
  have hnode : l.graph.nodeId? node = g.nodeId? node := by rw [hl.graph_eq]
  have hsame : other.graph.nodeId? node = g.nodeId? node := by rw [hother.graph_eq]
  rw [hnode] at hp
  rw [hsame] at hq
  cases hid : g.nodeId? node with
  | none =>
      rw [hid] at hp
      cases hp
  | some id =>
      rw [hid] at hp hq
      exact (predict_neutral id).ask_agrees
        (fun _ _ => (hl.recordQuery id node).refresh_same (hother.recordQuery id node)) hp hq

theorem Grows.posterior_agrees {other : DifferentiatingLearner α}
    (hl : Grows name c g history l) (hother : Grows name c g history other) {w w' : Workspace}
    {dist : Nat} {p q : List α} (hp : (l.posterior w dist).1 = .ok p)
    (hq : (other.posterior w' dist).1 = .ok q) : p = q :=
  (posterior_neutral dist).ask_agrees (fun _ _ => hl.refresh_same hother) hp hq

end DifferentiatingLearner

end DerivationBelief

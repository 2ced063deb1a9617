import DerivationBelief.Proofs.IteratingRuns
import Mathlib.Tactic

/-!
# Iterating learners answer from their batches

Once an iterating learner has caught up with its batches, its network is that of the last update
and the nodes start behind the parameters of its graph.  Both are determined by the batches: when
the updates took place, and how often they were tried, does not matter.
-/

namespace DerivationBelief

variable {α : Type} [Scalar α] [Numeral α]

open LearnerContext

omit [Numeral α] in
theorem LearnerContext.posteriors_distCount {g next : CausalGraph α} {backend : ExactNetwork α}
    (hnext : posteriors g backend = some next) : next.distCount = g.distCount := by
  unfold posteriors at hnext
  obtain ⟨dists, hdists, hnext⟩ := Option.bind_eq_some_iff.mp hnext
  cases hnext
  unfold CausalGraph.distCount
  rw [← (mapM_eq_some_iff.mp hdists).length_eq, List.length_zipIdx]

namespace IteratingLearner

open ReplicaNetwork

variable {l : IteratingLearner α} {c : LearnerContext α} {g : CausalGraph α}
  {history : List Batch}

theorem HoldsUpdate.answers {update : Nat} {n : ReplicaNetwork α}
    (hn : HoldsUpdate c g history update n) : ∃ model evidence, n.Answers model evidence := by
  cases hn with
  | first _ _ hanswers => exact ⟨_, _, hanswers⟩
  | later _ _ _ _ hanswers => exact ⟨_, _, hanswers⟩

/-- Networks of one update come to the same answers. -/
theorem HoldsUpdate.same {update : Nat} {n m : ReplicaNetwork α}
    (hn : HoldsUpdate c g history update n) (hm : HoldsUpdate c g history update m)
    (hoffset : n.offset = m.offset) : n.SameAnswers m := by
  cases hn with
  | first _ hupdate hanswers =>
      cases hm with
      | first _ hagain hothers =>
          cases hupdate.symm.trans hagain
          exact ⟨_, _, hanswers, hothers, hoffset⟩
  | later _ hbatch hpriors hupdate hanswers =>
      cases hm with
      | later _ hsame hreached hagain hothers =>
          cases hbatch.symm.trans hsame
          cases hpriors.symm.trans hreached
          cases hupdate.symm.trans hagain
          exact ⟨_, _, hanswers, hothers, hoffset⟩

/-! ## Where the nodes start -/

/-- The nodes of the network start behind the parameters of the graph. -/
def Placed (l : IteratingLearner α) : Prop :=
  ∀ n, l.network = some n → n.offset = l.graph.distCount

omit [Scalar α] [Numeral α] in
theorem placed_of_none (hnone : l.network = none) : l.Placed := by
  intro n hn
  cases hnone.symm.trans hn

theorem Placed.applies {batches : List Batch} {w : Workspace}
    {result : Outcome (LearnerFault α) Unit (IteratingLearner α × Workspace)} (hl : l.Placed)
    (hruns : Applies batches l w result) : result.2.1.Placed := by
  induction hruns with
  | done => exact hl
  | failed _ => exact placed_of_none rfl
  | updated hinfer _ ih =>
      obtain ⟨_, _, hposteriors, _, _, hoffset⟩ := infer_ok (congrArg Prod.fst hinfer)
      apply ih
      intro n hn
      cases hn
      exact hoffset.trans (posteriors_distCount hposteriors).symm

theorem placed_recompile (l : IteratingLearner α) (w : Workspace) :
    (l.recompile w).2.1.Placed := by
  have hruns := recompile_recompiles l w
  generalize l.recompile w = result at hruns
  cases hruns with
  | failed _ => exact placed_of_none rfl
  | created hcreate =>
      obtain ⟨compiled, backend, hcompile, _, hnetwork⟩ :=
        createNetwork_ok (c := l.context) (w := (l.retire w).2) (by rw [hcreate])
      intro n hn
      cases hn
      rw [hnetwork]
      exact FactorGraph.compile_distCount hcompile

theorem Placed.catchUp (hl : l.Placed) (w : Workspace) : (l.catchUp w).2.1.Placed := by
  unfold IteratingLearner.catchUp
  split
  · exact placed_recompile l w
  · exact hl.applies (applyBatches_applies l.pending l w)

theorem Placed.refresh (hl : l.Placed) (w : Workspace) : (l.refresh w).2.1.Placed := by
  have hcaught := hl.catchUp w
  have hruns := refresh_refreshes l w
  generalize l.refresh w = result at hruns
  cases hruns with
  | current _ _ => exact hl
  | failed _ hcatchUp =>
      rw [hcatchUp] at hcaught
      exact hcaught
  | caught _ hcatchUp _ =>
      rw [hcatchUp] at hcaught
      exact hcaught

/-! ## What every call keeps -/

/-- A learner that tracks its batches, and whose nodes start behind its parameters. -/
structure Follows (c : LearnerContext α) (g : CausalGraph α) (history : List Batch)
    (l : IteratingLearner α) : Prop extends Tracks c g history l where
  placed : l.Placed

theorem Follows.new (name : String) (c : LearnerContext α) (g : CausalGraph α) :
    Follows c g [] (new name c g) where
  toTracks := .new name c g
  placed := placed_of_none rfl

theorem Follows.refresh (hl : Follows c g history l) (w : Workspace) :
    Follows c g history (l.refresh w).2.1 where
  toTracks := (hl.toTracks.refresh w).tracks
  placed := hl.placed.refresh w

theorem Follows.ask {β : Type} (hl : Follows c g history l)
    {question : ReplicaNetwork α → Outcome NetworkFault β (ReplicaNetwork α)}
    (hquestion : Neutral question) (w : Workspace) :
    Follows c g history (ReplicaNetwork.ask question keep (l.refresh w)).2.1 where
  toTracks := hl.toTracks.ask hquestion.keeps w
  placed := by
    have hrefreshed := hl.refresh w
    have hholding := (hl.toTracks.refresh w).holding
    set last := (l.refresh w).2.1
    refine ask_keeps (fun n => n.offset = last.graph.distCount ∧
      ∃ model evidence, n.Answers model evidence) Placed ?_ hrefreshed.placed ?_ ?_
    · rintro n ⟨hoffset, model, evidence, hanswers⟩
      obtain ⟨hkept, hshell⟩ := hquestion.keeps n model evidence hanswers
      exact ⟨(congrArg ReplicaNetwork.offset hshell :).trans hoffset, model, evidence, hkept⟩
    · intro n hn
      have hnetwork := (hholding n hn).1
      exact ⟨hrefreshed.placed n hnetwork, (hrefreshed.held n hnetwork).answers⟩
    · rintro n ⟨hoffset, _⟩ next hnext
      cases hnext
      exact hoffset

theorem Follows.recordQuery (hl : Follows c g history l) (id : Nat) (node : String) :
    Follows c g history { l with context := l.context.recordQuery id node } where
  toTracks := hl.toTracks.recordQuery id node
  placed := hl.placed

theorem Follows.append (hl : Follows c g history l) (w : Workspace)
    (observation : Observation) :
    Follows c g (history ++ [g.batchOf observation]) (l.append w observation).1 where
  toTracks := hl.toTracks.append w observation
  placed := placed_of_none rfl

theorem Follows.query (hl : Follows c g history l) (w : Workspace) (node : String) :
    Follows c g history (l.query w node).2.1 := by
  unfold IteratingLearner.query
  split
  · exact hl
  next id _ => exact (hl.recordQuery id node).ask (predict_neutral id) w

theorem Follows.posterior (hl : Follows c g history l) (w : Workspace) (dist : Nat) :
    Follows c g history (l.posterior w dist).2.1 :=
  hl.ask (posterior_neutral dist) w

/-- A learner that has caught up has the graph of all batches and the network of the last one. -/
theorem Follows.refresh_ok (hl : Follows c g history l) {w : Workspace} {n : ReplicaNetwork α}
    (hn : (l.refresh w).1 = .ok n) :
    HoldsUpdate c g history history.length n ∧
      ∃ last, c.learnAll g history = some last ∧ n.offset = last.distCount := by
  have hfollows := hl.refresh w
  obtain ⟨hnetwork, hpending⟩ := (hl.toTracks.refresh w).holding n hn
  have hupdates : (l.refresh w).2.1.updates = history.length := by
    have hcounted := hfollows.counted
    rwa [hpending, List.length_nil, Nat.add_zero] at hcounted
  have hheld := hfollows.held n hnetwork
  have hgraph := hfollows.graph_eq
  rw [hupdates] at hheld
  rw [hupdates, List.take_length] at hgraph
  exact ⟨hheld, _, hgraph, hfollows.placed n hnetwork⟩

/-- Learners with the same history come to networks of the same answers. -/
theorem Follows.refresh_same {other : IteratingLearner α} (hl : Follows c g history l)
    (hother : Follows c g history other) {w w' : Workspace} {n m : ReplicaNetwork α}
    (hn : (l.refresh w).1 = .ok n) (hm : (other.refresh w').1 = .ok m) : n.SameAnswers m := by
  obtain ⟨hheld, last, hlast, hoffset⟩ := hl.refresh_ok hn
  obtain ⟨hagain, reached, hreached, hsame⟩ := hother.refresh_ok hm
  cases hlast.symm.trans hreached
  exact hheld.same hagain (hoffset.trans hsame.symm)

/-- Learning leaves the names of the nodes alone. -/
theorem Follows.nodeId?_eq (hl : Follows c g history l) (node : String) :
    l.graph.nodeId? node = g.nodeId? node := by
  rw [learnAll_nodes hl.graph_eq]
  rfl

/-- Learners with the same history agree on a node wherever both answer. -/
theorem Follows.query_agrees {other : IteratingLearner α} (hl : Follows c g history l)
    (hother : Follows c g history other) {w w' : Workspace} {node : String} {p q : α}
    (hp : (l.query w node).1 = .ok p) (hq : (other.query w' node).1 = .ok q) : p = q := by
  unfold IteratingLearner.query at hp hq
  rw [hl.nodeId?_eq] at hp
  rw [hother.nodeId?_eq] at hq
  cases hid : g.nodeId? node with
  | none =>
      rw [hid] at hp
      cases hp
  | some id =>
      rw [hid] at hp hq
      exact (predict_neutral id).ask_agrees
        (fun _ _ => (hl.recordQuery id node).refresh_same (hother.recordQuery id node)) hp hq

theorem Follows.posterior_agrees {other : IteratingLearner α} (hl : Follows c g history l)
    (hother : Follows c g history other) {w w' : Workspace} {dist : Nat} {p q : List α}
    (hp : (l.posterior w dist).1 = .ok p) (hq : (other.posterior w' dist).1 = .ok q) : p = q :=
  (posterior_neutral dist).ask_agrees (fun _ _ => hl.refresh_same hother) hp hq

end IteratingLearner

end DerivationBelief

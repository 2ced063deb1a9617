import DerivationBelief.Proofs.ExactUpdates
import DerivationBelief.Proofs.OneShotRuns
import Mathlib.Tactic

/-!
# Learning in steps agrees with learning at once

A learner that applies batch after batch and one that binds its whole history come to the same belief
in a single parameter: what it draws given all batches.  They contradict themselves together, too,
since the priors after some batches exclude the next one exactly when no world has them all.  What
was asked in between, and when batches were applied, plays no part.
-/

namespace DerivationBelief

namespace IteratingLearner

open LearnerContext ReplicaNetwork

/-! ## The nodes that were asked for -/

section Contexts

variable {α : Type} [Scalar α] [Numeral α] {l : IteratingLearner α}

theorem Applies.context_eq {batches : List Batch} {w : Workspace}
    {result : Outcome (LearnerFault α) Unit (IteratingLearner α × Workspace)}
    (hruns : Applies batches l w result) : result.2.1.context = l.context := by
  induction hruns with
  | done => rfl
  | failed _ => rfl
  | updated _ _ ih => exact ih

theorem catchUp_context (l : IteratingLearner α) (w : Workspace) :
    (l.catchUp w).2.1.context = l.context := by
  unfold catchUp
  split
  · have hruns := recompile_recompiles l w
    generalize l.recompile w = result at hruns
    cases hruns <;> rfl
  · exact (applyBatches_applies l.pending l w).context_eq

/-- Refreshing leaves the context of a learner alone. -/
theorem refresh_context (l : IteratingLearner α) (w : Workspace) :
    (l.refresh w).2.1.context = l.context := by
  have hcaught := catchUp_context l w
  have hruns := refresh_refreshes l w
  generalize l.refresh w = result at hruns
  cases hruns with
  | current _ _ => rfl
  | failed _ hcatchUp =>
      rw [hcatchUp] at hcaught
      exact hcaught
  | caught _ hcatchUp _ =>
      rw [hcatchUp] at hcaught
      exact hcaught

theorem ask_context {β : Type}
    (question : ReplicaNetwork α → Outcome NetworkFault β (ReplicaNetwork α)) (w : Workspace) :
    (ReplicaNetwork.ask question keep (l.refresh w)).2.1.context = l.context := by
  rcases ask_cases question keep (l.refresh w) with ⟨_, _, hasked⟩ | ⟨n, _, hasked⟩
  · rw [hasked]
    exact refresh_context l w
  · rw [hasked]
    exact refresh_context l w

/-- Without any question to rank, an update comes to what its network makes of the graph. -/
theorem infer_created {w : Workspace} {batch : Batch} {fresh bound last : ReplicaNetwork α}
    {next : CausalGraph α}
    (hcreate : (l.context.createNetwork w (updateName (l.updates + 1)) l.graph 0 true).1 =
      .ok fresh)
    (hbound : fresh.bindBatch batch 0 = .ok bound) (hnone : l.context.queried = [])
    (hupdate : bound.updateGraph l.graph = (.ok next, last)) :
    (l.infer w batch).1 = .ok (last, next) := by
  obtain ⟨w', hresult⟩ : ∃ w', l.context.createNetwork w
      (threeDigits (l.updates + 1) ++ ".post") l.graph 0 true = (.ok fresh, w') :=
    ⟨_, Prod.ext hcreate rfl⟩
  unfold infer writeRanking
  simp only [hresult, hbound, hnone, predictAll, bind, Except.bind, pure, Except.pure, hupdate]

/-- With a single pending batch, refreshing is its update. -/
theorem refresh_single {w : Workspace} {batch : Batch} {network : ReplicaNetwork α}
    {next : CausalGraph α} (hdirty : l.state = .dirty) (hnetwork : l.network = none)
    (hpending : l.pending = [batch]) (hinfer : (l.infer w batch).1 = .ok (network, next)) :
    (l.refresh w).1 = .ok network := by
  obtain ⟨w', hresult⟩ : ∃ w', l.infer w batch = (.ok (network, next), w') :=
    ⟨_, Prod.ext hinfer rfl⟩
  have hretired : l.retire w = (l, w) := retire_of_none hnetwork
  unfold refresh
  rw [if_neg (by simp [hdirty]), hpending]
  simp only [List.isEmpty_cons, Bool.false_eq_true, if_false, applyBatches, hretired, hresult,
    Except.toBool, if_true]

end Contexts

section Exact

variable [Numeral ℚ] {c : LearnerContext ℚ} {g : CausalGraph ℚ} {history : List Batch}
  {l : IteratingLearner ℚ}

omit [Numeral ℚ] in
theorem AsksAbout.recordQuery (hc : AsksAbout g c) {id : Nat} (hid : id < g.nodeCount)
    (node : String) : AsksAbout g (c.recordQuery id node) := by
  unfold LearnerContext.recordQuery
  split
  · exact hc
  · intro entry hentry
    rcases List.mem_append.mp hentry with hold | hnew
    · exact hc entry hold
    · rw [List.mem_singleton.mp hnew]
      exact hid

/-- A learner that follows its batches, and has been asked about nodes of the graph only. -/
structure Learns (c : LearnerContext ℚ) (g : CausalGraph ℚ) (history : List Batch)
    (l : IteratingLearner ℚ) : Prop extends Follows c g history l where
  asks : AsksAbout g l.context

theorem Learns.new (name : String) (hc : AsksAbout g c) : Learns c g [] (new name c g) where
  toFollows := .new name c g
  asks := hc

theorem Learns.perform (hl : Learns c g history l) (w : Workspace) (call : LearnerCall) :
    Learns c g (history ++ g.appended [(call, w)]) (l.perform w call) := by
  cases call with
  | append records => exact ⟨hl.toFollows.append w (.ofRecords records), hl.asks⟩
  | query node =>
      have hfollows : Follows c g (history ++ []) (l.query w node).2.1 :=
        (List.append_nil history).symm ▸ hl.toFollows.query w node
      refine ⟨hfollows, ?_⟩
      change AsksAbout g (l.query w node).2.1.context
      unfold IteratingLearner.query
      cases hid : l.graph.nodeId? node with
      | none => exact hl.asks
      | some id =>
          rw [hl.nodeId?_eq] at hid
          dsimp only
          rw [ask_context]
          exact hl.asks.recordQuery (CausalGraph.nodeIn?_lt hid) node
  | posterior dist =>
      have hfollows : Follows c g (history ++ []) (l.posterior w dist).2.1 :=
        (List.append_nil history).symm ▸ hl.toFollows.posterior w dist
      refine ⟨hfollows, ?_⟩
      change AsksAbout g (l.posterior w dist).2.1.context
      unfold IteratingLearner.posterior
      rw [ask_context]
      exact hl.asks

theorem Learns.run (hl : Learns c g history l) (calls : List (LearnerCall × Workspace)) :
    Learns c g (history ++ g.appended calls) (l.run calls) :=
  CausalGraph.kept_along (fun _ _ hkept => hkept.perform) hl calls

/-! ## Why a refresh fails -/

/-- With nothing pending, only the first network can fail to be created. -/
theorem Tracks.refresh_idle_fault (hl : Tracks c g history l) (hpending : l.pending = [])
    {w : Workspace} {fault : LearnerFault ℚ} (hfault : (l.refresh w).1 = .error fault) :
    l.updates = 0 ∧
      ∃ w', (l.context.createNetwork w' (updateName l.updates) l.graph 0 true).1 =
        .error fault := by
  have hruns := refresh_refreshes l w
  generalize l.refresh w = result at hfault hruns
  cases hruns with
  | current _ _ | caught _ _ _ => cases hfault
  | @failed last after cause hstale hcaught =>
      cases hfault
      have hrecompile : l.recompile w = (.error fault, last, after) := by
        unfold IteratingLearner.catchUp at hcaught
        rwa [hpending, List.isEmpty_nil, if_pos rfl] at hcaught
      have hruns := recompile_recompiles l w
      rw [hrecompile] at hruns
      cases hruns with
      | failed hcreate =>
          exact ⟨hl.idle (hl.dirty_of_stale hstale) hpending, _, congrArg Prod.fst hcreate⟩

/-- The next update fails for a history that cannot have been, an obstacle, or cancellation. -/
theorem Tracks.infer_responds {seen rest : List Batch} {batch : Batch}
    (hl : Tracks c g (seen ++ batch :: rest) l) (hcount : seen.length = l.updates)
    (hasks : AsksAbout g l.context) (hg : g.Proper) (hacyclic : Acyclic g.Derives)
    (hone : g.distCount = 1) (hhistory : ∀ entry ∈ seen ++ batch :: rest, g.Observes entry)
    (hlossless : c.LosslessAlong g (seen ++ batch :: rest)) {w : Workspace} {fault : LearnerFault ℚ}
    (hinfer : (l.infer w batch).1 = .error fault) :
    Responds c.clauseLimit c.options.maxTableEntries
      (g.probability true (seen ++ batch :: rest).length
      (fun w => w.Holds (seen ++ batch :: rest))) () (.error fault) := by
  have hgraph := hl.graph_eq
  rw [← hcount, List.take_left] at hgraph
  have hseen : ∀ earlier ∈ seen, g.Observes earlier :=
    fun earlier hearlier => hhistory earlier (List.mem_append_left _ hearlier)
  have hbatch : g.Observes batch := hhistory batch (List.mem_append_right _ List.mem_cons_self)
  obtain ⟨hgiven, hpositive⟩ := learnAll_given hg hacyclic hone hseen hlossless.first hgraph
  have hprior : l.graph.Proper := hgiven ▸ hg.given hpositive
  have hseenBatch : l.graph.Observes batch := hgiven ▸ hbatch.given
  have hasked : AsksAbout l.graph l.context := by
    rw [hgiven]
    exact hasks
  have hsame : l.context.LosslessUpdate l.graph (l.updates + 1) := by
    rw [hl.context_eq, ← hcount]
    exact hlossless.later hgraph
  have hlimit : l.context.clauseLimit = c.clauseLimit := by rw [hl.context_eq]
  have hbound : l.context.options = c.options := by rw [hl.context_eq]
  have hresponds := infer_fault hprior hsame hseenBatch hasked hinfer
  rw [hlimit, hbound] at hresponds
  cases hresponds with
  | inconsistent hinside hzero =>
      apply Responds.inconsistent hinside
      rw [hgiven, CausalGraph.probability_batch_given hg hacyclic hone hseen hbatch hpositive,
        div_eq_zero_iff] at hzero
      have hzero := hzero.resolve_right hpositive.ne'
      rw [List.append_cons] at hhistory ⊢
      exact CausalGraph.probability_holds_append hg hacyclic hone hhistory hzero
  | obstructed hcause => exact .obstructed hcause
  | cancelled => exact .cancelled

/-- A refresh fails for a history that cannot have been, an obstacle, or cancellation. -/
theorem Learns.refresh_fault (hl : Learns c g history l) (hg : g.Proper)
    (hacyclic : Acyclic g.Derives) (hone : g.distCount = 1)
    (hhistory : ∀ batch ∈ history, g.Observes batch) (hlossless : c.LosslessAlong g history)
    {w : Workspace} {fault : LearnerFault ℚ} (hfault : (l.refresh w).1 = .error fault) :
    Responds c.clauseLimit c.options.maxTableEntries
      (g.probability true history.length (fun w => w.Holds history)) ()
      (.error fault) := by
  by_cases hpending : l.pending = []
  · obtain ⟨hupdates, w', hcreate⟩ := hl.refresh_idle_fault hpending hfault
    have hgraph := hl.graph_eq
    rw [hupdates, List.take_zero] at hgraph
    have hfirst : c.LosslessUpdate l.graph l.updates :=
      hlossless _ (hupdates ▸ Nat.zero_le _) _ (by rw [hupdates]; exact hgraph)
    obtain rfl := Option.some.inj hgraph
    rw [hl.context_eq] at hcreate
    exact createNetwork_responds (c := { c with queried := l.context.queried }) hg hfirst
      hcreate _
  · obtain ⟨batch, rest, w', hfront, hinfer⟩ :=
      (hl.toTracks.refresh w).failed fault hfault hpending
    have htracks := (hl.toTracks.refresh w).tracks
    have hasks : AsksAbout g (l.refresh w).2.1.context := refresh_context l w ▸ hl.asks
    set last := (l.refresh w).2.1
    have hsplit : history = history.take last.updates ++ batch :: rest := by
      rw [← hfront, htracks.pending_eq, List.take_append_drop]
    have hcount : (history.take last.updates).length = last.updates := by
      have hcounted := htracks.counted
      rw [List.length_take]
      omega
    generalize history.take last.updates = seen at hsplit hcount
    subst hsplit
    exact htracks.infer_responds hcount hasks hg hacyclic hone hhistory hlossless hinfer

/-! ## What is answered -/

/-- The network of the last update reports the draws given the whole history. -/
theorem HoldsUpdate.posterior {n : ReplicaNetwork ℚ}
    (hn : HoldsUpdate c g history history.length n) (hg : g.Proper) (hacyclic : Acyclic g.Derives)
    (hone : g.distCount = 1) (hhistory : ∀ batch ∈ history, g.Observes batch)
    (hlossless : c.LosslessAlong g history) (hoffset : n.offset = 1) :
    Reported c.options.maxTableEntries
      (g.probability true history.length (fun w => w.Holds history))
      (g.drawsGiven true history.length (fun w => w.Holds history) 0) (n.posterior 0).1 := by
  obtain ⟨count, hcount⟩ : ∃ count, history.length = count := ⟨_, rfl⟩
  rw [hcount] at hn
  cases hn with
  | first hname hupdate hanswers =>
      obtain rfl := List.length_eq_zero_iff.mp hcount
      have hnothing : g.Observes [] := ⟨List.nodup_nil, nofun⟩
      obtain ⟨f, hmeans, hmodel, hobserving, hbound⟩ :=
        updateNetwork_exact hg (hlossless 0 (Nat.zero_le _) g rfl) hnothing hupdate
      have hreported := reported_posterior hg hmeans hmodel hobserving hanswers
        (hoffset.trans hone.symm) (hone.symm ▸ Nat.one_pos)
      have hsame : ∀ w : World, BatchHolds [] (w.node 0) ↔ w.Holds [] :=
        fun w => ⟨fun _ => nofun, fun _ => nofun⟩
      rwa [CausalGraph.probability_congr hsame, CausalGraph.drawsGiven_congr hsame, hbound]
        at hreported
  | @later update batch priors _ backend hname hbatch hpriors hupdate hanswers =>
      have hsplit : history = history.take update ++ [batch] := by
        have hall : history.take (update + 1) = history := List.take_of_length_le hcount.le
        rw [List.take_add_one, hbatch] at hall
        exact hall.symm
      have hlength : (history.take update).length = update := by
        rw [List.length_take]
        omega
      generalize history.take update = seen at hsplit hlength hpriors
      subst hsplit
      subst hlength
      have hseen : ∀ earlier ∈ seen, g.Observes earlier :=
        fun earlier hearlier => hhistory earlier (List.mem_append_left _ hearlier)
      have hlast : g.Observes batch :=
        hhistory batch (List.mem_append_right _ (List.mem_singleton_self batch))
      obtain ⟨rfl, hpositive⟩ :=
        learnAll_given hg hacyclic hone hseen hlossless.first hpriors
      have hdists : (g.given seen.length (fun w => w.Holds seen)).distCount = 1 :=
        CausalGraph.given_distCount.trans hone
      obtain ⟨f, hmeans, hmodel, hobserving, hbound⟩ := updateNetwork_exact (hg.given hpositive)
        (hlossless.later hpriors) hlast.given hupdate
      have hreported := reported_posterior (hg.given hpositive) hmeans hmodel hobserving hanswers
        (hoffset.trans hdists.symm) (hdists.symm ▸ Nat.one_pos)
      rw [CausalGraph.probability_batch_given hg hacyclic hone hseen hlast hpositive,
        CausalGraph.drawsGiven_given hg hacyclic hone hseen hlast hpositive, hbound] at hreported
      exact hreported.of_share hpositive

theorem HoldsUpdate.limit_inside {update : Nat} {n : ReplicaNetwork ℚ}
    (hn : HoldsUpdate c g history update n) : ¬ LimitOutside c.clauseLimit := by
  have hcompiled : ∀ {priors update batch backend},
      c.updateNetwork priors update batch = some backend → ¬ LimitOutside c.clauseLimit := by
    intro priors update batch backend hupdate
    obtain ⟨compiled, hcompile, _⟩ := Option.bind_eq_some_iff.mp hupdate
    exact FactorGraph.limit_of_compiled (eq_ok_of_toOption hcompile)
  cases hn with
  | first _ hupdate _ => exact hcompiled hupdate
  | later _ _ _ hupdate _ => exact hcompiled hupdate

/-- A learner that applies its batches one by one answers what its parameter draws given all of
them. -/
theorem Learns.posterior_responds (hl : Learns c g history l) (hg : g.Proper)
    (hacyclic : Acyclic g.Derives) (hone : g.distCount = 1)
    (hhistory : ∀ batch ∈ history, g.Observes batch) (hlossless : c.LosslessAlong g history)
    (w : Workspace) :
    Responds c.clauseLimit c.options.maxTableEntries
      (g.probability true history.length (fun w => w.Holds history))
      (g.drawsGiven true history.length (fun w => w.Holds history) 0) (l.posterior w 0).1 := by
  unfold IteratingLearner.posterior
  rcases ask_cases (fun n : ReplicaNetwork ℚ => n.posterior 0) keep (l.refresh w) with
    ⟨fault, hfault, hasked⟩ | ⟨n, hok, hasked⟩
  · rw [hasked]
    exact (hl.refresh_fault hg hacyclic hone hhistory hlossless hfault).of_fault _
  · rw [hasked]
    obtain ⟨hheld, last, hlast, hoffset⟩ := hl.refresh_ok hok
    have hdists : last.distCount = 1 := by
      rw [(learnAll_given hg hacyclic hone hhistory hlossless hlast).1]
      exact CausalGraph.given_distCount.trans hone
    exact (hheld.posterior hg hacyclic hone hhistory hlossless
      (hoffset.trans hdists)).responds hheld.limit_inside

/-- A learner that has answered has nothing left to apply. -/
theorem Tracks.pending_of_posterior (hl : Tracks c g history l) {w : Workspace} {dist : Nat}
    {p : List ℚ} (hp : (l.posterior w dist).1 = .ok p) :
    (l.posterior w dist).2.1.pending = [] := by
  unfold IteratingLearner.posterior at hp ⊢
  rcases ask_cases (fun n : ReplicaNetwork ℚ => n.posterior dist) keep (l.refresh w) with
    ⟨fault, _, hasked⟩ | ⟨n, hok, hasked⟩
  · rw [hasked] at hp
    cases hp
  · rw [hasked]
    exact ((hl.refresh w).holding n hok).2

/-! ## Learners of both kinds -/

/-- Whatever was asked in between, a learner that applies the batches one by one and one that binds
all of them come to the same posterior of the only parameter, and when nothing interrupts them they
find the evidence inconsistent together. -/
theorem stepwise_posterior_agrees (name other : String) {c d : LearnerContext ℚ}
    (hlimit : LimitOutside c.clauseLimit ↔ LimitOutside d.clauseLimit) {g : CausalGraph ℚ}
    (hg : g.Constructed) (hvalid : g.validate = .ok ()) (hacyclic : Acyclic g.Derives)
    (hone : g.distCount = 1) (hdists : ∀ dist ∈ g.dists, dist.WellFormed) (hasks : AsksAbout g c)
    {calls others : List (LearnerCall × Workspace)}
    (happended : g.appended calls = g.appended others)
    (hlossless : c.LosslessAlong g (g.appended calls))
    (hwhole : OneShotLearner.LosslessFor other d g (g.appended others).length) (w w' : Workspace) :
    let stepwise := (((new name c g).run calls).posterior w 0).1
    let whole := (((OneShotLearner.new other d g).run others).posterior w' 0).1
    (∀ p q, stepwise = .ok p → whole = .ok q → p = q) ∧
      (¬ Interrupted stepwise → ¬ Interrupted whole →
        ((∃ p, stepwise = .ok p) ↔ ∃ q, whole = .ok q) ∧
        (stepwise = .error (.network (.solver .inconsistentEvidence)) ↔
          whole = .error (.network (.solver .inconsistentEvidence)))) := by
  intro stepwise whole
  have hproper : g.Proper := ⟨hg.coherent, hvalid, hdists⟩
  have hobserves := OneShotLearner.appended_observes g calls
  have hlearns : Learns c g (g.appended calls) ((new name c g).run calls) :=
    (Learns.new name hasks).run calls
  have hserves : OneShotLearner.Serves other d g (g.appended others)
      ((OneShotLearner.new other d g).run others) :=
    (OneShotLearner.Serves.new other d g).run others
  have hstepwise := hlearns.posterior_responds hproper hacyclic hone hobserves hlossless w
  have hfirst : 0 < g.distCount := hone ▸ Nat.one_pos
  have hall := hserves.posterior_responds hproper hwhole (happended ▸ hobserves) w' hfirst
  rw [← happended] at hall
  refine ⟨fun p q hp hq => ?_, fun hended hendedOther => ?_⟩
  · have hanswer : Responds c.clauseLimit c.options.maxTableEntries _ _ stepwise := hstepwise
    have hother : Responds d.clauseLimit d.options.maxTableEntries _ _ whole := hall
    rw [hp] at hanswer
    rw [hq] at hother
    rw [hanswer.eq_of_ok, hother.eq_of_ok]
  · have hinside : ¬ LimitOutside c.clauseLimit ↔ ¬ LimitOutside d.clauseLimit := not_congr hlimit
    constructor
    · exact (hstepwise.answers_iff hended).trans
        ((and_congr_left' hinside).trans (hall.answers_iff hendedOther).symm)
    · exact (hstepwise.inconsistent_iff hended).trans
        ((and_congr_left' hinside).trans (hall.inconsistent_iff hendedOther).symm)

end Exact

/-! ## A rainy day and a dry one -/

section Street

open FactorGraph
open OneShotLearner (decimalNumeral streetContext quietWorkspace wetStreet_dists)

/-- The street after a rainy day, which speaks for the higher chance. -/
def rainedStreet : CausalGraph ℚ :=
  { wetStreet with dists := [⟨[1 / 4, 3 / 4], [1 / 4, 3 / 4]⟩] }

theorem wetStreet_lossless_first : (streetContext 2).LosslessUpdate wetStreet 0 := by
  intro f hf
  apply lossless_of_reads _ hf
  simp only [Factor.parseAll, FactorGraph.text, LineReader.ofText, String.toList_ofList]
  decide +kernel

theorem wetStreet_lossless_update : (streetContext 2).LosslessUpdate wetStreet 1 := by
  intro f hf
  apply lossless_of_reads _ hf
  simp only [Factor.parseAll, FactorGraph.text, LineReader.ofText, String.toList_ofList]
  decide +kernel

theorem rainedStreet_lossless : (streetContext 2).LosslessUpdate rainedStreet 2 := by
  intro f hf
  apply lossless_of_reads _ hf
  simp only [Factor.parseAll, FactorGraph.text, LineReader.ofText, String.toList_ofList]
  decide +kernel

theorem wetStreet_given_rain :
    wetStreet.given 1 (fun w => w.Holds [[(0, true)]]) = rainedStreet := by
  have hdraws : wetStreet.drawsGiven true 1 (fun w => w.Holds [[(0, true)]]) 0 = [1 / 4, 3 / 4] := by
    decide +kernel
  unfold CausalGraph.given rainedStreet
  change { wetStreet with dists := [{ evenOdds with
    probabilities := wetStreet.drawsGiven true 1 (fun w => w.Holds [[(0, true)]]) 0 }] } = _
  rw [hdraws]
  rfl

/-- Applying one batch to a street, and what is learned from it, can be computed without any
files. -/
theorem street_estimated {l : IteratingLearner ℚ} {g : CausalGraph ℚ} {batch : Batch}
    (hcontext : l.context = streetContext 2) (hgraph : l.graph = g) (hdirty : l.state = .dirty)
    (hnetwork : l.network = none) (hpending : l.pending = [batch]) {update : Nat}
    (hupdates : l.updates = update) (hlossless : (streetContext 2).LosslessUpdate g (update + 1))
    {file : String} (hfile : (streetContext 2).fileOf (updateName (update + 1)) = file)
    (hname : FileTree.PlainName file) {p : List ℚ}
    (hvalue : (do
      let f ← (compile g 0 true 2).toOption
      let backend ← (ExactNetwork.ofFactors file (streetContext 2).options f.factors).toOption
      let bound ← ((ReplicaNetwork.ofCompiled (updateName (update + 1)) file g.nodeCount 0
        f.layout backend).bindBatch batch 0).toOption
      let _next ← (bound.updateGraph g).1.toOption
      ((bound.updateGraph g).2.posterior 0).1.toOption) = some p) :
    (l.posterior quietWorkspace 0).1 = .ok p := by
  obtain ⟨f, hf, hvalue⟩ := Option.bind_eq_some_iff.mp hvalue
  obtain ⟨backend, hbackend, hvalue⟩ := Option.bind_eq_some_iff.mp hvalue
  obtain ⟨bound, hbound, hvalue⟩ := Option.bind_eq_some_iff.mp hvalue
  obtain ⟨next, hnext, hvalue⟩ := Option.bind_eq_some_iff.mp hvalue
  obtain ⟨written, hwrite⟩ := hname.write?_empty f.text
  have hread : f.readBack file (streetContext 2).options = .ok backend := by
    rw [← hfile, (hlossless f (eq_ok_of_toOption hf)).readBack_eq, hfile]
    exact eq_ok_of_toOption hbackend
  have hcreate := LearnerContext.createNetwork_loaded (c := streetContext 2)
    (w := quietWorkspace) rfl rfl (eq_ok_of_toOption hf) (hfile ▸ hwrite) (hfile ▸ hread)
  rw [hfile, ← hcontext, ← hgraph, ← hupdates] at hcreate
  have hupdate : bound.updateGraph l.graph = (.ok next, (bound.updateGraph g).2) := by
    rw [hgraph]
    exact Prod.ext (eq_ok_of_toOption hnext) rfl
  have hinfer := infer_created hcreate
    (by rw [hgraph, hupdates]; exact eq_ok_of_toOption hbound) (by rw [hcontext]; rfl) hupdate
  unfold IteratingLearner.posterior
  rw [ask_of_ok (refresh_single hdirty hnetwork hpending hinfer), eq_ok_of_toOption hvalue]
  rfl

theorem rainyDay_lossless : (streetContext 2).LosslessAlong wetStreet [[(0, true)]] := by
  intro update hupdate priors hpriors
  have hcases : update = 0 ∨ update = 1 := by
    rw [List.length_singleton] at hupdate
    omega
  rcases hcases with rfl | rfl
  · cases hpriors
    exact wetStreet_lossless_first
  · cases hpriors
    exact wetStreet_lossless_update

theorem rainyDay_priors {priors : CausalGraph ℚ}
    (hpriors : (streetContext 2).learnAll wetStreet [[(0, true)]] = some priors) :
    priors = rainedStreet := by
  have hproper : wetStreet.Proper := ⟨wetStreet_constructed.coherent, rfl, wetStreet_dists⟩
  have hseen := OneShotLearner.appended_observes wetStreet
    [(.append [("rain", true)], quietWorkspace)]
  exact (learnAll_given hproper wetStreet_acyclic rfl hseen rainyDay_lossless hpriors).1.trans
    wetStreet_given_rain

theorem twoDays_lossless :
    (streetContext 2).LosslessAlong wetStreet [[(0, true)], [(0, false)]] := by
  intro update hupdate priors hpriors
  have hcases : update ≤ 1 ∨ update = 2 := by
    rw [List.length_cons, List.length_singleton] at hupdate
    omega
  rcases hcases with hearly | rfl
  · apply rainyDay_lossless update hearly
    have hnone : update - 1 = 0 := by omega
    rw [hnone] at hpriors ⊢
    exact hpriors
  · rw [rainyDay_priors hpriors]
    exact rainedStreet_lossless

/-- A rainy day and a dry one, with or without a question in between. -/
def rainyAndDry (asking : Bool) : List (LearnerCall × Workspace) :=
  (.append [("rain", true)], quietWorkspace) ::
    ((if asking then [(.posterior 0, quietWorkspace)] else []) ++
      [(.append [("rain", false)], quietWorkspace)])

theorem rainyDay_estimated :
    (((new "street" (streetContext 2) wetStreet).run
      [(.append [("rain", true)], quietWorkspace)]).posterior quietWorkspace 0).1 =
        .ok [1 / 4, 3 / 4] := by
  have hupdates : ((new "street" (streetContext 2) wetStreet).run
      [(.append [("rain", true)], quietWorkspace)]).updates = 0 := rfl
  have hfile : (streetContext 2).fileOf (updateName 1) = "001.post.fg" := by
    decide +kernel
  have hname : FileTree.PlainName "001.post.fg" := by
    constructor <;> decide +kernel
  apply street_estimated rfl rfl rfl rfl rfl hupdates wetStreet_lossless_update hfile hname
  decide +kernel

/-- A learner that has answered after the rainy day finds the chances even after the dry one. -/
theorem dryDay_estimated {l : IteratingLearner ℚ}
    (hl : Learns (streetContext 2) wetStreet [[(0, true)]] l)
    (hcontext : l.context = streetContext 2) {p : List ℚ}
    (hp : (l.posterior quietWorkspace 0).1 = .ok p) :
    ((l.run [(.posterior 0, quietWorkspace),
      (.append [("rain", false)], quietWorkspace)]).posterior quietWorkspace 0).1 =
        .ok [1 / 2, 1 / 2] := by
  have hlast : Learns (streetContext 2) wetStreet [[(0, true)], [(0, false)]]
      (l.run [(.posterior 0, quietWorkspace), (.append [("rain", false)], quietWorkspace)]) :=
    hl.run [(.posterior 0, quietWorkspace), (.append [("rain", false)], quietWorkspace)]
  have hupdates : (l.run [(.posterior 0, quietWorkspace),
      (.append [("rain", false)], quietWorkspace)]).updates = 1 := by
    have hcounted := (hl.perform quietWorkspace (.posterior 0)).counted
    change (l.posterior quietWorkspace 0).2.1.updates +
      (l.posterior quietWorkspace 0).2.1.pending.length = 1 at hcounted
    rw [hl.pending_of_posterior hp] at hcounted
    exact hcounted
  have hkept : (l.run [(.posterior 0, quietWorkspace),
      (.append [("rain", false)], quietWorkspace)]).context = streetContext 2 :=
    (ask_context _ _).trans hcontext
  have hfile : (streetContext 2).fileOf (updateName 2) = "002.post.fg" := by
    decide +kernel
  have hname : FileTree.PlainName "002.post.fg" := by
    constructor <;> decide +kernel
  have hpending := hlast.pending_eq
  have hgraph := hlast.graph_eq
  rw [hupdates] at hpending hgraph
  apply street_estimated hkept (rainyDay_priors hgraph) rfl rfl hpending hupdates
    rainedStreet_lossless hfile hname
  decide +kernel

theorem wetStreet_stepwise :
    (((new "street" (streetContext 2) wetStreet).run (rainyAndDry true)).posterior
      quietWorkspace 0).1 = .ok [1 / 2, 1 / 2] := by
  have hasks : AsksAbout wetStreet (streetContext 2) := nofun
  have hrainy : Learns (streetContext 2) wetStreet [[(0, true)]]
      ((new "street" (streetContext 2) wetStreet).run
        [(.append [("rain", true)], quietWorkspace)]) :=
    (Learns.new "street" hasks).run [(.append [("rain", true)], quietWorkspace)]
  exact dryDay_estimated hrainy rfl rainyDay_estimated

theorem wetStreet_whole :
    (((OneShotLearner.new "street" (streetContext 2) wetStreet).run (rainyAndDry false)).posterior
      quietWorkspace 0).1 = .ok [1 / 2, 1 / 2] := by
  have hserves :=
    (OneShotLearner.Serves.new "street" (streetContext 2) wetStreet).run (rainyAndDry false)
  have hfile : (streetContext 2).fileOf (OneShotLearner.networkName "street" 2) =
      "street_2.fg" := by
    decide +kernel
  have hname : FileTree.PlainName "street_2.fg" := by
    constructor <;> decide +kernel
  apply OneShotLearner.wetStreet_asked hserves rfl OneShotLearner.wetStreet_lossless_twice hfile
    hname
  decide +kernel

/-- A rainy day and a dry one leave the chances even, learned one by one with a question in between
or bound at once. -/
theorem twoDays_posterior_agrees :
    wetStreet.appended (rainyAndDry true) = wetStreet.appended (rainyAndDry false) ∧
    ∃ p q, (((new "street" (streetContext 2) wetStreet).run (rainyAndDry true)).posterior
        quietWorkspace 0).1 = .ok p ∧
      (((OneShotLearner.new "street" (streetContext 2) wetStreet).run (rainyAndDry false)).posterior
        quietWorkspace 0).1 = .ok q ∧ p = q := by
  have hsame : wetStreet.appended (rainyAndDry true) = wetStreet.appended (rainyAndDry false) := rfl
  have hasks : AsksAbout wetStreet (streetContext 2) := nofun
  exact ⟨hsame, _, _, wetStreet_stepwise, wetStreet_whole,
    (stepwise_posterior_agrees "street" "street" Iff.rfl wetStreet_constructed rfl wetStreet_acyclic
      rfl wetStreet_dists hasks hsame twoDays_lossless OneShotLearner.wetStreet_lossless_twice
      quietWorkspace quietWorkspace).1 _ _ wetStreet_stepwise wetStreet_whole⟩

end Street

end IteratingLearner

end DerivationBelief

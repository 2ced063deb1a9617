import DerivationBelief.Proofs.IteratingSteps
import DerivationBelief.Proofs.ReproducibleAnswers
import Mathlib.Tactic

/-!
# Every batch is applied once and in order

Applying a batch compiles the current priors with one replica, binds the batch in it, and replaces
every distribution by its posterior.  The ranking in between asks questions only, so it may stop an
update but does not change its result.

Whatever calls are made, in whatever workspaces, the graph of an iterating learner is what the
batches applied so far make of the first one, and the pending batches are the others.  A call that
fails on the way has applied some batches and leaves the one that failed in front.
-/

namespace DerivationBelief

variable {α : Type} [Scalar α] [Numeral α]

/-! ## The step of one batch -/

namespace LearnerContext

def updateName (update : Nat) : String :=
  threeDigits update ++ ".post"

/-- The priors of a graph with one replica, and a batch bound in it. -/
def updateNetwork (c : LearnerContext α) (g : CausalGraph α) (update : Nat) (batch : Batch) :
    Option (ExactNetwork α) := do
  let compiled ← (FactorGraph.compile g 0 true c.clauseLimit).toOption
  let backend ← (compiled.readBack (c.fileOf (updateName update)) c.options).toOption
  backend.bind? (compiled.layout.nodeVar 0 0) batch

/-- Replace every distribution by its posterior. -/
def posteriors (g : CausalGraph α) (backend : ExactNetwork α) : Option (CausalGraph α) := do
  let dists ← g.dists.zipIdx.mapM (fun entry => do
    let belief ← (backend.model.belief backend.evidence entry.2).toOption
    (entry.1.reweigh belief).toOption)
  return { g with dists }

def learn (c : LearnerContext α) (g : CausalGraph α) (update : Nat) (batch : Batch) :
    Option (CausalGraph α) := do
  posteriors g (← c.updateNetwork g update batch)

def learnAll (c : LearnerContext α) (g : CausalGraph α) (batches : List Batch) :
    Option (CausalGraph α) :=
  batches.zipIdx.foldlM (fun g entry => c.learn g (entry.2 + 1) entry.1) g

theorem learnAll_append (c : LearnerContext α) (g : CausalGraph α) (batches : List Batch)
    (batch : Batch) :
    c.learnAll g (batches ++ [batch]) =
      (c.learnAll g batches).bind (fun priors => c.learn priors (batches.length + 1) batch) := by
  unfold learnAll
  rw [List.zipIdx_append, List.foldlM_append]
  simp

omit [Numeral α] in
theorem posteriors_nodes {g next : CausalGraph α} {backend : ExactNetwork α}
    (hnext : posteriors g backend = some next) : next = { g with dists := next.dists } := by
  unfold posteriors at hnext
  obtain ⟨dists, _, hnext⟩ := Option.bind_eq_some_iff.mp hnext
  cases hnext
  rfl

/-- Learning changes nothing but the distributions. -/
theorem learnAll_nodes {c : LearnerContext α} {g last : CausalGraph α} {batches : List Batch}
    (hlast : c.learnAll g batches = some last) : last = { g with dists := last.dists } := by
  induction batches using List.reverseRecOn generalizing last with
  | nil =>
      cases hlast
      rfl
  | append_singleton batches batch ih =>
      rw [learnAll_append] at hlast
      obtain ⟨priors, hpriors, hlearn⟩ := Option.bind_eq_some_iff.mp hlast
      obtain ⟨backend, _, hposteriors⟩ := Option.bind_eq_some_iff.mp hlearn
      rw [posteriors_nodes hposteriors, ih hpriors]

end LearnerContext

open LearnerContext

namespace ReplicaNetwork

variable {n : ReplicaNetwork α} {model : TableNetwork α} {evidence : Evidence}

omit [Numeral α] in
theorem updatedDists_ok (hn : n.Answers model evidence) {entries : List (Distribution α × Nat)}
    {dists : List (Distribution α)} (hdists : (n.updatedDists entries).1 = .ok dists) :
    entries.mapM (fun entry => do
        let belief ← (model.belief evidence entry.2).toOption
        (entry.1.reweigh belief).toOption) = some dists ∧
      (n.updatedDists entries).2.Answers model evidence ∧
      (n.updatedDists entries).2.shell = n.shell := by
  induction entries generalizing n dists with
  | nil =>
      cases hdists
      exact ⟨rfl, hn, rfl⟩
  | cons entry entries ih =>
      obtain ⟨hestimate, hanswers, hshell⟩ := posterior_spec hn entry.2
      unfold updatedDists at hdists ⊢
      cases hposterior : n.posterior entry.2 with
      | mk answer next =>
          rw [hposterior] at hestimate hanswers hshell
          simp only [hposterior] at hdists ⊢
          cases answer with
          | error cause => cases hdists
          | ok belief =>
              change model.belief evidence entry.2 = .ok belief at hestimate
              dsimp only at hdists ⊢
              cases hreweigh : entry.1.reweigh belief with
              | error cause =>
                  rw [hreweigh] at hdists
                  cases hdists
              | ok updated =>
                  rw [hreweigh] at hdists
                  dsimp only at hdists ⊢
                  cases hmore : next.updatedDists entries with
                  | mk result last =>
                      rw [hmore] at hdists
                      cases result with
                      | error fault => cases hdists
                      | ok more =>
                          cases hdists
                          have hfirst : (next.updatedDists entries).1 = .ok more := by rw [hmore]
                          have hrest := ih hanswers hfirst
                          rw [hmore] at hrest
                          refine ⟨?_, hrest.2.1, hrest.2.2.trans hshell⟩
                          rw [List.mapM_cons, hrest.1]
                          simp [hestimate, hreweigh, Except.toOption]

omit [Numeral α] in
theorem updateGraph_ok {backend : ExactNetwork α}
    (hn : n.Answers backend.model backend.evidence) {g next : CausalGraph α}
    {last : ReplicaNetwork α} (hupdate : n.updateGraph g = (.ok next, last)) :
    posteriors g backend = some next ∧ last.Answers backend.model backend.evidence ∧
      last.shell = n.shell := by
  unfold updateGraph at hupdate
  cases hdists : n.updatedDists g.dists.zipIdx with
  | mk result after =>
      rw [hdists] at hupdate
      cases result with
      | error fault => cases hupdate
      | ok dists =>
          have hfirst : (n.updatedDists g.dists.zipIdx).1 = .ok dists := by rw [hdists]
          have hspec := updatedDists_ok hn hfirst
          rw [hdists] at hspec
          cases hupdate
          refine ⟨?_, hspec.2⟩
          unfold posteriors
          rw [hspec.1]
          rfl

omit [Numeral α] in
theorem predictAll_ok {asked : List (Nat × String)} {ranking : List (Nat × α × String)}
    {last : ReplicaNetwork α} (hn : n.Answers model evidence)
    (hlast : IteratingLearner.predictAll n asked = .ok (ranking, last)) :
    last.Answers model evidence ∧ last.shell = n.shell := by
  induction asked generalizing n ranking with
  | nil =>
      cases hlast
      exact ⟨hn, rfl⟩
  | cons entry asked ih =>
      obtain ⟨_, hanswers, hshell⟩ := predict_spec hn entry.1
      unfold IteratingLearner.predictAll at hlast
      cases hpredict : n.predict entry.1 with
      | mk answer next =>
          rw [hpredict] at hlast hanswers hshell
          cases answer with
          | error cause => cases hlast
          | ok p =>
              obtain ⟨⟨more, final⟩, hmore, hfinal⟩ := bind_eq_ok_iff.mp hlast
              cases hfinal
              obtain ⟨hkept, hsame⟩ := ih hanswers hmore
              exact ⟨hkept, hsame.trans hshell⟩

end ReplicaNetwork

namespace IteratingLearner

open ReplicaNetwork

variable {l : IteratingLearner α}

/-- An update that succeeds has learned from its batch, and its network is that of the batch. -/
theorem infer_ok {w : Workspace} {batch : Batch} {network : ReplicaNetwork α}
    {next : CausalGraph α} (hinfer : (l.infer w batch).1 = .ok (network, next)) :
    ∃ backend, l.context.updateNetwork l.graph (l.updates + 1) batch = some backend ∧
      posteriors l.graph backend = some next ∧
      network.Answers backend.model backend.evidence ∧
      network.name = updateName (l.updates + 1) ∧ network.offset = l.graph.distCount := by
  have hruns := infer_infers l w batch
  generalize l.infer w batch = result at hinfer hruns
  cases hruns with
  | uncreated _ | unbound _ _ | unranked _ _ _ | unlearned _ _ _ _ => cases hinfer
  | learned hcreate hbound hranked hgraph =>
      cases hinfer
      obtain ⟨compiled, loaded, hcompile, hread, rfl⟩ :=
        createNetwork_ok (c := l.context) (w := w) (by rw [hcreate])
      obtain ⟨backend, hbackend, rfl⟩ := bindBatch_ok rfl hbound
      have hupdate : l.context.updateNetwork l.graph (l.updates + 1) batch = some backend := by
        refine Option.bind_eq_some_iff.mpr ⟨compiled, ?_,
          Option.bind_eq_some_iff.mpr ⟨loaded, ?_, hbackend⟩⟩
        · rw [hcompile]
          rfl
        · rw [updateName, hread]
          rfl
      have hfresh := ExactNetwork.bind?_fresh (FactorGraph.readBack_fresh hread).2 hbackend
      -- The ranking asks but does not bind, so the posteriors still come from this evidence.
      obtain ⟨⟨ranking, asked⟩, hasked, hlisted⟩ := bind_eq_ok_iff.mp hranked
      cases hlisted
      obtain ⟨hanswers, hshell⟩ := predictAll_ok (.of_backend rfl hfresh) hasked
      obtain ⟨hposteriors, hlast, hsame⟩ := updateGraph_ok hanswers hgraph
      refine ⟨backend, hupdate, hposteriors, hlast, ?_, ?_⟩
      · exact (congrArg ReplicaNetwork.name (hsame.trans hshell) :)
      · exact (congrArg ReplicaNetwork.offset (hsame.trans hshell) :).trans
          (FactorGraph.compile_distCount hcompile)

/-! ## What every call keeps -/

variable {c : LearnerContext α} {g : CausalGraph α} {history : List Batch}

/-- A network for an update: for no update that of the first priors, and for a later one that of the
priors before the last batch with this batch bound. -/
inductive HoldsUpdate (c : LearnerContext α) (g : CausalGraph α) (history : List Batch) :
    Nat → ReplicaNetwork α → Prop
  | first {n : ReplicaNetwork α} {backend : ExactNetwork α} (hname : n.name = updateName 0)
      (hupdate : c.updateNetwork g 0 [] = some backend)
      (hanswers : n.Answers backend.model backend.evidence) : HoldsUpdate c g history 0 n
  | later {update : Nat} {batch : Batch} {priors : CausalGraph α} {n : ReplicaNetwork α}
      {backend : ExactNetwork α} (hname : n.name = updateName (update + 1))
      (hbatch : history[update]? = some batch)
      (hpriors : c.learnAll g (history.take update) = some priors)
      (hupdate : c.updateNetwork priors (update + 1) batch = some backend)
      (hanswers : n.Answers backend.model backend.evidence) :
      HoldsUpdate c g history (update + 1) n

/-- The first batches have been applied, and the others are pending. -/
structure Progress (c : LearnerContext α) (g : CausalGraph α) (history : List Batch)
    (l : IteratingLearner α) : Prop where
  counted : l.updates + l.pending.length = history.length
  pending_eq : l.pending = history.drop l.updates
  graph_eq : c.learnAll g (history.take l.updates) = some l.graph
  context_eq : l.context = { c with queried := l.context.queried }
  held : ∀ n, l.network = some n → HoldsUpdate c g history l.updates n

/-- The pending batch in front is one whose update failed. -/
def FailedFirst (l : IteratingLearner α) (fault : LearnerFault α) : Prop :=
  ∃ batch rest w, l.pending = batch :: rest ∧ (l.infer w batch).1 = .error fault

theorem updateNetwork_queried (queried : List (Nat × String)) (priors : CausalGraph α)
    (update : Nat) (batch : Batch) :
    ({ c with queried } : LearnerContext α).updateNetwork priors update batch =
      c.updateNetwork priors update batch :=
  rfl

theorem Progress.retire (hl : Progress c g history l) (w : Workspace) :
    Progress c g history (l.retire w).1 where
  counted := hl.counted
  pending_eq := hl.pending_eq
  graph_eq := hl.graph_eq
  context_eq := hl.context_eq
  held := by
    intro n hn
    cases hn

theorem Progress.advance (hl : Progress c g history l) {batch : Batch} {rest : List Batch}
    (hpending : l.pending = batch :: rest) {w : Workspace} {network : ReplicaNetwork α}
    {next : CausalGraph α} (hinfer : (l.infer w batch).1 = .ok (network, next)) :
    Progress c g history { l with
      graph := next, network := some network, pending := rest, updates := l.updates + 1 } := by
  obtain ⟨backend, hupdate, hposteriors, hanswers, hname, _⟩ := infer_ok hinfer
  rw [hl.context_eq, updateNetwork_queried] at hupdate
  have hdrop : history.drop l.updates = batch :: rest := hl.pending_eq ▸ hpending
  have hbatch : history[l.updates]? = some batch := by
    have hhead := congrArg (fun batches : List Batch => batches[0]?) hdrop
    simpa using hhead
  have htake : history.take (l.updates + 1) = history.take l.updates ++ [batch] := by
    rw [List.take_add_one, hbatch]
    rfl
  have hlength : (history.take l.updates).length = l.updates := by
    have hcounted := hl.counted
    rw [List.length_take]
    omega
  constructor
  case counted =>
    have hcounted := hl.counted
    rw [hpending, List.length_cons] at hcounted
    dsimp only
    omega
  case pending_eq =>
    have htail := congrArg List.tail hdrop
    simpa using htail.symm
  case graph_eq =>
    dsimp only
    rw [htake, learnAll_append, hl.graph_eq, hlength]
    change c.learn l.graph (l.updates + 1) batch = some next
    exact Option.bind_eq_some_iff.mpr ⟨backend, hupdate, hposteriors⟩
  case context_eq => exact hl.context_eq
  case held =>
    -- The network has the priors from before this batch, not the ones that it has produced.
    intro n hn
    cases hn
    exact .later hname hbatch hl.graph_eq hupdate hanswers

/-- What comes of catching up with the pending batches as far as updates succeed. -/
structure CaughtUp (c : LearnerContext α) (g : CausalGraph α) (history : List Batch)
    (before : IteratingLearner α)
    (result : Outcome (LearnerFault α) Unit (IteratingLearner α × Workspace)) : Prop where
  progress : Progress c g history result.2.1
  state_eq : result.2.1.state = before.state
  pending_nil : result.1 = .ok () → result.2.1.pending = []
  updates_eq : before.pending = [] → result.2.1.updates = before.updates
  failed : ∀ fault, result.1 = .error fault → before.pending ≠ [] →
    FailedFirst result.2.1 fault

theorem Progress.applyBatches (hl : Progress c g history l) (w : Workspace) :
    CaughtUp c g history l (applyBatches l.pending l w) := by
  have hruns := applyBatches_applies l.pending l w
  generalize IteratingLearner.applyBatches l.pending l w = result at hruns
  generalize hpending : l.pending = batches at hruns
  -- On the pending batches: the learner after an update is a learner with one batch less.
  induction hruns with
  | done =>
      exact {
        progress := hl
        state_eq := rfl
        pending_nil := fun _ => hpending
        updates_eq := fun _ => rfl
        failed := fun _ hfault => nomatch hfault }
  -- The old network is gone, but graph, batches and count are as they were.
  | @failed _ _ _ w _ _ hinfer =>
      exact {
        progress := hl.retire w
        state_eq := rfl
        pending_nil := fun hok => nomatch hok
        updates_eq := fun hnil => nomatch hpending.symm.trans hnil
        failed := by
          intro fault hfault _
          cases hfault
          exact ⟨_, _, _, hpending, congrArg Prod.fst hinfer⟩ }
  | updated hinfer hruns ih =>
      have hupdated := (hl.retire _).advance hpending (congrArg Prod.fst hinfer)
      have hrest := ih hupdated rfl
      exact {
        progress := hrest.progress
        state_eq := hrest.state_eq
        pending_nil := hrest.pending_nil
        updates_eq := fun hnil => nomatch hpending.symm.trans hnil
        failed := by
          intro fault hfault _
          refine hrest.failed fault hfault ?_
          rintro rfl
          cases hruns
          cases hfault }

/-- What is known of a learner between calls. -/
structure Tracks (c : LearnerContext α) (g : CausalGraph α) (history : List Batch)
    (l : IteratingLearner α) : Prop extends Progress c g history l where
  clean : l.state = .clean → l.pending = [] ∧ ∃ n, l.network = some n
  /-- Without a pending batch there is nothing to do, except for the first network. -/
  idle : l.state = .dirty → l.pending = [] → l.updates = 0

theorem Progress.first_holds (hl : Progress c g history l) (hupdates : l.updates = 0)
    {w w' : Workspace} {network : ReplicaNetwork α}
    (hcreate : l.context.createNetwork w (updateName l.updates) l.graph 0 true =
      (.ok network, w')) :
    HoldsUpdate c g history l.updates network := by
  obtain ⟨compiled, backend, hcompile, hread, rfl⟩ :=
    createNetwork_ok (c := l.context) (w := w) (by rw [hcreate])
  have hgraph : g = l.graph := by
    have hlearned := hl.graph_eq
    rw [hupdates, List.take_zero] at hlearned
    exact Option.some.inj hlearned
  have hupdate : l.context.updateNetwork l.graph 0 [] = some backend := by
    refine Option.bind_eq_some_iff.mpr ⟨compiled, ?_,
      Option.bind_eq_some_iff.mpr ⟨backend, ?_, rfl⟩⟩
    · rw [hcompile]
      rfl
    · rw [← hupdates, hread]
      rfl
  rw [hl.context_eq, updateNetwork_queried, ← hgraph] at hupdate
  have hname : updateName l.updates = updateName 0 := congrArg updateName hupdates
  rw [hupdates]
  exact .first (by rw [← hname]; rfl) hupdate
    ⟨backend, rfl, rfl, rfl, (FactorGraph.readBack_fresh hread).2⟩

theorem Progress.recompile (hl : Progress c g history l) (hpending : l.pending = [])
    (hupdates : l.updates = 0) (w : Workspace) :
    CaughtUp c g history l (l.recompile w) := by
  have hretired := hl.retire w
  have hruns := recompile_recompiles l w
  generalize l.recompile w = result at hruns
  cases hruns with
  | failed _ =>
      exact {
        progress := hretired
        state_eq := rfl
        pending_nil := fun hok => nomatch hok
        updates_eq := fun _ => rfl
        failed := fun _ _ hne => absurd hpending hne }
  | created hcreate =>
      have hholds := hl.first_holds hupdates hcreate
      exact {
        progress := { hretired with
          held := by
            intro n hn
            cases hn
            exact hholds }
        state_eq := rfl
        pending_nil := fun _ => hpending
        updates_eq := fun _ => rfl
        failed := fun _ hfault => nomatch hfault }

theorem Tracks.catchUp (hl : Tracks c g history l) (hdirty : l.state = .dirty) (w : Workspace) :
    CaughtUp c g history l (l.catchUp w) := by
  unfold IteratingLearner.catchUp
  split
  next hempty =>
      have hpending : l.pending = [] := List.isEmpty_iff.mp hempty
      exact hl.toProgress.recompile hpending (hl.idle hdirty hpending) w
  next => exact hl.toProgress.applyBatches w

theorem Tracks.dirty_of_stale (hl : Tracks c g history l)
    (hstale : ¬ (l.state = .clean ∧ l.network.isSome)) : l.state = .dirty := by
  cases hstate : l.state with
  | dirty => rfl
  | clean =>
      obtain ⟨_, n, hn⟩ := hl.clean hstate
      exact absurd ⟨hstate, by rw [hn]; rfl⟩ hstale

/-- What a call that refreshes leaves behind. -/
structure Refreshed (c : LearnerContext α) (g : CausalGraph α) (history : List Batch)
    (before : IteratingLearner α)
    (result : Outcome (LearnerFault α) (ReplicaNetwork α) (IteratingLearner α × Workspace)) :
    Prop where
  tracks : Tracks c g history result.2.1
  holding : ∀ n, result.1 = .ok n → result.2.1.network = some n ∧ result.2.1.pending = []
  failed : ∀ fault, result.1 = .error fault → before.pending ≠ [] →
    FailedFirst result.2.1 fault

theorem Tracks.refresh (hl : Tracks c g history l) (w : Workspace) :
    Refreshed c g history l (l.refresh w) := by
  have hruns := refresh_refreshes l w
  generalize l.refresh w = result at hruns
  cases hruns with
  | current hclean hn =>
      exact {
        tracks := hl
        holding := by
          intro other hother
          cases hother
          exact ⟨hn, (hl.clean hclean).1⟩
        failed := fun _ hfault => nomatch hfault }
  | @failed last _ fault hstale hcatchUp =>
      have hdirty := hl.dirty_of_stale hstale
      have hcaught := hl.catchUp hdirty w
      rw [hcatchUp] at hcaught
      have hstate : last.state = .dirty := hcaught.state_eq.trans hdirty
      -- A failure with nothing pending can only be that of the first network.
      have hidle : last.pending = [] → last.updates = 0 := by
        intro hnil
        by_cases hpending : l.pending = []
        · exact (hcaught.updates_eq hpending).trans (hl.idle hdirty hpending)
        · obtain ⟨_, _, _, hfront, _⟩ := hcaught.failed fault rfl hpending
          exact absurd (hfront.symm.trans hnil) (List.cons_ne_nil _ _)
      exact {
        tracks := {
          toProgress := hcaught.progress
          clean := fun hclean => nomatch hstate.symm.trans hclean
          idle := fun _ => hidle }
        holding := fun _ hok => nomatch hok
        failed := by
          intro other hother hpending
          cases hother
          exact hcaught.failed fault rfl hpending }
  | @caught last _ n hstale hcatchUp hn =>
      have hcaught := hl.catchUp (hl.dirty_of_stale hstale) w
      rw [hcatchUp] at hcaught
      have hnil : last.pending = [] := hcaught.pending_nil rfl
      have hprogress : Progress c g history { last with state := .clean } :=
        { hcaught.progress with }
      exact {
        tracks := {
          toProgress := hprogress
          clean := fun _ => ⟨hnil, n, hn⟩
          idle := fun hstate => nomatch hstate }
        holding := by
          intro other hother
          cases hother
          exact ⟨hn, hnil⟩
        failed := fun _ hfault => nomatch hfault }

/-! ## Runs -/

theorem HoldsUpdate.asked {update : Nat} {n next : ReplicaNetwork α}
    (hn : HoldsUpdate c g history update n)
    (hnext : ∀ model evidence, n.Answers model evidence →
      next.Answers model evidence ∧ next.shell = n.shell) :
    HoldsUpdate c g history update next := by
  cases hn with
  | first hname hupdate hanswers =>
      obtain ⟨hkept, hshell⟩ := hnext _ _ hanswers
      have hsame : next.name = n.name := (congrArg ReplicaNetwork.name hshell :)
      exact .first (hsame.trans hname) hupdate hkept
  | later hname hbatch hpriors hupdate hanswers =>
      obtain ⟨hkept, hshell⟩ := hnext _ _ hanswers
      have hsame : next.name = n.name := (congrArg ReplicaNetwork.name hshell :)
      exact .later (hsame.trans hname) hbatch hpriors hupdate hkept

theorem Tracks.ask {β : Type} (hl : Tracks c g history l)
    {question : ReplicaNetwork α → Outcome NetworkFault β (ReplicaNetwork α)}
    (hquestion : ∀ n model evidence, n.Answers model evidence →
      (question n).2.Answers model evidence ∧ (question n).2.shell = n.shell) (w : Workspace) :
    Tracks c g history (ReplicaNetwork.ask question keep (l.refresh w)).2.1 := by
  have hrefreshed := hl.refresh w
  rcases ask_cases question keep (l.refresh w) with ⟨_, _, hasked⟩ | ⟨n, hok, hasked⟩
  · rw [hasked]
    exact hrefreshed.tracks
  · obtain ⟨hnetwork, hnil⟩ := hrefreshed.holding n hok
    have hholds := hrefreshed.tracks.held n hnetwork
    rw [hasked]
    exact {
      counted := hrefreshed.tracks.counted
      pending_eq := hrefreshed.tracks.pending_eq
      graph_eq := hrefreshed.tracks.graph_eq
      context_eq := hrefreshed.tracks.context_eq
      held := by
        intro next hnext
        cases hnext
        exact hholds.asked (hquestion n)
      clean := fun _ => ⟨hnil, _, rfl⟩
      idle := hrefreshed.tracks.idle }

theorem Tracks.recordQuery (hl : Tracks c g history l) (id : Nat) (node : String) :
    Tracks c g history { l with context := l.context.recordQuery id node } :=
  { hl with
    context_eq := LearnerContext.recordQuery_eq hl.context_eq id node }

theorem Tracks.append (hl : Tracks c g history l) (w : Workspace) (observation : Observation) :
    Tracks c g (history ++ [g.batchOf observation]) (l.append w observation).1 := by
  have hcounted := hl.counted
  have happlied : l.updates ≤ history.length := by omega
  have hbatch : l.graph.batchOf observation = g.batchOf observation := by
    rw [learnAll_nodes hl.graph_eq]
    rfl
  change Tracks c g (history ++ [g.batchOf observation])
    { l with pending := l.pending ++ [l.graph.batchOf observation]
             network := none
             state := .dirty }
  rw [hbatch]
  constructor
  case toProgress =>
    constructor
    case counted =>
      simp only [List.length_append, List.length_singleton]
      omega
    case pending_eq => rw [List.drop_append_of_le_length happlied, hl.pending_eq]
    case graph_eq => exact (List.take_append_of_le_length happlied).symm ▸ hl.graph_eq
    case context_eq => exact hl.context_eq
    case held =>
      intro n hn
      cases hn
  case clean =>
    intro hstate
    cases hstate
  case idle => simp

def perform (l : IteratingLearner α) (w : Workspace) : LearnerCall → IteratingLearner α
  | .append records => (l.append w (.ofRecords records)).1
  | .query node => (l.query w node).2.1
  | .posterior dist => (l.posterior w dist).2.1

/-- Make calls one after the other, each in a workspace as it happens to be. -/
def run (l : IteratingLearner α) (calls : List (LearnerCall × Workspace)) : IteratingLearner α :=
  calls.foldl (fun l entry => l.perform entry.2 entry.1) l

theorem Tracks.perform (hl : Tracks c g history l) (w : Workspace) (call : LearnerCall) :
    Tracks c g (history ++ g.appended [(call, w)]) (l.perform w call) := by
  cases call with
  | append records => exact hl.append w (.ofRecords records)
  | query node =>
      change Tracks c g (history ++ []) (l.query w node).2.1
      rw [List.append_nil]
      unfold IteratingLearner.query
      split
      · exact hl
      next id _ =>
          exact (hl.recordQuery id node).ask
            (fun n _ _ hn => (predict_spec hn id).2) w
  | posterior dist =>
      change Tracks c g (history ++ []) (l.posterior w dist).2.1
      rw [List.append_nil]
      exact hl.ask (fun n _ _ hn => (posterior_spec hn dist).2) w

theorem Tracks.run (hl : Tracks c g history l) (calls : List (LearnerCall × Workspace)) :
    Tracks c g (history ++ g.appended calls) (l.run calls) :=
  CausalGraph.kept_along (fun _ _ hkept => hkept.perform) hl calls

theorem Tracks.new (name : String) (c : LearnerContext α) (g : CausalGraph α) :
    Tracks c g [] (new name c g) where
  counted := rfl
  pending_eq := rfl
  graph_eq := rfl
  context_eq := rfl
  held := by
    intro n hn
    cases hn
  clean := by
    intro hstate
    cases hstate
  idle := fun _ _ => rfl

/-- Whatever calls were made, a learner has applied the first of the batches in order, has the
others pending, and holds no network but that of the last update.  The next question refreshes it
exactly when every step of that succeeds; otherwise the batch whose update failed is in front. -/
theorem batches_applied_once_in_order (name : String) (c : LearnerContext α) (g : CausalGraph α)
    (calls : List (LearnerCall × Workspace)) :
    Tracks c g (g.appended calls) ((new name c g).run calls) ∧
      ∀ w, Refreshed c g (g.appended calls) ((new name c g).run calls)
          (((new name c g).run calls).refresh w) ∧
        ((∃ n, (((new name c g).run calls).refresh w).1 = .ok n) ↔
          ((new name c g).run calls).StepsSucceed w) := by
  have htracks : Tracks c g (g.appended calls) ((new name c g).run calls) :=
    (Tracks.new name c g).run calls
  exact ⟨htracks, fun w => ⟨htracks.refresh w, refresh_ok_iff⟩⟩

end IteratingLearner

end DerivationBelief

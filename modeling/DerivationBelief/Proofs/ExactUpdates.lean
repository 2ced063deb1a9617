import DerivationBelief.Proofs.IteratingAnswers
import DerivationBelief.Proofs.SequentialBelief
import DerivationBelief.Proofs.EventAnswers
import Mathlib.Tactic

/-!
# Updates over exact fractions

When texts are read back without loss, an update comes to the graph given its batch, and it fails for
nothing but a batch that the priors exclude, an obstacle, or cancellation.  With a single
distribution the priors after some batches are therefore the graph given these batches.
-/

namespace DerivationBelief

section Exact

variable [Numeral ℚ] {c : LearnerContext ℚ} {g next : CausalGraph ℚ} {update : Nat}
  {history : List Batch} {batch : Batch}

/-- A batch can be bound in the only replica of a network that was created without loss. -/
theorem ReplicaNetwork.CreationOf.bindOne {name path : String} {limit : Nat}
    {options : SolverOptions ℚ} {created : ReplicaNetwork ℚ}
    (hcreation : CreationOf name path g 0 true limit options (.ok created)) (hg : g.Proper)
    (hlossless : ∀ f, FactorGraph.compile g 0 true limit = .ok f → f.Lossless path)
    (hbatch : g.Observes batch) :
    ∃ bound, created.bindBatch batch 0 = .ok bound ∧
      bound.Reports g true 0 (fun w => BatchHolds batch (w.node 0)) options.maxTableEntries := by
  obtain ⟨bound, hbound, _, hreports⟩ :=
    hcreation.bindBatch hg hlossless hbatch.node_lt (Nat.zero_le 0)
  have hdistinct : Arrival.putAll [] batch = batch := Arrival.putAll_of_new hbatch.distinct
  rw [hdistinct] at hreports
  exact ⟨bound, hbound, hreports⟩

/-! ## What an update comes to -/

namespace LearnerContext

/-- The text of the network of an update, if it is compiled, reads back to its factors. -/
def LosslessUpdate (c : LearnerContext ℚ) (g : CausalGraph ℚ) (update : Nat) : Prop :=
  ∀ f, FactorGraph.compile g 0 true c.clauseLimit = .ok f →
    f.Lossless (c.fileOf (updateName update))

/-- The network of an update has the factors of the priors, and its evidence says the batch. -/
theorem updateNetwork_exact (hg : g.Proper) (hlossless : c.LosslessUpdate g update)
    (hbatch : g.Observes batch) {backend : ExactNetwork ℚ}
    (hbackend : c.updateNetwork g update batch = some backend) :
    ∃ f : FactorGraph ℚ, f.Means g true 0 ∧
      backend.model.Holds (g.stateCount true) f.factors ∧
      f.Observing g true 0 backend.evidence (fun w => BatchHolds batch (w.node 0)) ∧
      backend.model.limit = c.options.maxTableEntries := by
  obtain ⟨compiled, hcompile, hbackend⟩ := Option.bind_eq_some_iff.mp hbackend
  obtain ⟨loaded, hread, hbackend⟩ := Option.bind_eq_some_iff.mp hbackend
  have hcreation : ReplicaNetwork.CreationOf (updateName update) (c.fileOf (updateName update)) g 0
      true c.clauseLimit c.options (.ok (.ofCompiled (updateName update)
        (c.fileOf (updateName update)) g.nodeCount 0 compiled.layout loaded)) :=
    .loaded (eq_ok_of_toOption hcompile) (eq_ok_of_toOption hread)
  obtain ⟨bound, hbound, f, model, evidence, hreports⟩ := hcreation.bindOne hg hlossless hbatch
  obtain ⟨last, hlast, rfl⟩ := ReplicaNetwork.bindBatch_ok rfl hbound
  cases hbackend.symm.trans hlast
  obtain ⟨same, hsame, rfl, rfl, _⟩ := hreports.answers
  cases hsame
  exact ⟨f, hreports.means, hreports.model_holds, hreports.observing, hreports.limit_eq⟩

section Posteriors

variable {f : FactorGraph ℚ} {backend : ExactNetwork ℚ} {event : World → Prop}
  [DecidablePred event]

omit [Numeral ℚ] in
/-- A distribution that is reweighed with its belief has what it draws given the event. -/
theorem reweighed_belief (hg : g.Proper) (hmeans : f.Means g true 0)
    (hmodel : backend.model.Holds (g.stateCount true) f.factors)
    (hobserving : f.Observing g true 0 backend.evidence event) {dist : Nat}
    {d updated : Distribution ℚ} (hd : g.dists[dist]? = some d)
    (hupdated : (do
      let belief ← (backend.model.belief backend.evidence dist).toOption
      (d.reweigh belief).toOption) = some updated) :
    0 < g.probability true 0 event ∧
      updated = { d with probabilities := g.drawsGiven true 0 event dist } := by
  obtain ⟨belief, hbelief, hreweigh⟩ := Option.bind_eq_some_iff.mp hupdated
  have hexact := hmeans.belief_draw hg hobserving hmodel (List.getElem?_eq_some_iff.mp hd).1
  rw [eq_ok_of_toOption hbelief] at hexact
  obtain ⟨hpositive, rfl⟩ := hexact
  rw [CausalGraph.reweigh_drawsGiven hg.dists hpositive hd] at hreweigh
  exact ⟨hpositive, (Option.some.inj hreweigh).symm⟩

omit [Numeral ℚ] in
/-- Posteriors are the distributions of the graph given the event of the evidence. -/
theorem posteriors_given (hg : g.Proper) (hmeans : f.Means g true 0)
    (hmodel : backend.model.Holds (g.stateCount true) f.factors)
    (hobserving : f.Observing g true 0 backend.evidence event)
    (hnext : posteriors g backend = some next) :
    next = g.given 0 event ∧ (0 < g.distCount → 0 < g.probability true 0 event) := by
  obtain ⟨dists, hdists, hnext⟩ := Option.bind_eq_some_iff.mp hnext
  cases hnext
  obtain ⟨hlength, hentries⟩ := List.forall₂_iff_get.mp (mapM_eq_some_iff.mp hdists)
  rw [List.length_zipIdx] at hlength
  have hplace : ∀ dist (hdist : dist < g.distCount), 0 < g.probability true 0 event ∧
      dists[dist]? = some { g.dists[dist] with
        probabilities := g.drawsGiven true 0 event dist } := by
    intro dist hdist
    have hlast : dist < dists.length := hlength ▸ hdist
    have hupdated := hentries dist (by rwa [List.length_zipIdx]) hlast
    rw [List.get_eq_getElem, List.get_eq_getElem, List.getElem_zipIdx, Nat.zero_add] at hupdated
    obtain ⟨hpositive, hsame⟩ :=
      reweighed_belief hg hmeans hmodel hobserving (List.getElem?_eq_getElem hdist) hupdated
    exact ⟨hpositive, (List.getElem?_eq_getElem hlast).trans (congrArg some hsame)⟩
  have hsame : dists = (g.given 0 event).dists := by
    apply List.ext_getElem?
    intro dist
    rw [CausalGraph.given_dists]
    by_cases hdist : dist < g.distCount
    · rw [(hplace dist hdist).2, List.getElem?_eq_getElem hdist]
      rfl
    · have hnone : g.dists[dist]? = none := List.getElem?_eq_none (Nat.le_of_not_lt hdist)
      rw [hnone]
      exact List.getElem?_eq_none (hlength ▸ Nat.le_of_not_lt hdist)
  exact ⟨congrArg (fun dists => ({ g with dists } : CausalGraph ℚ)) hsame,
    fun hdist => (hplace 0 hdist).1⟩

end Posteriors

theorem learn_given (hg : g.Proper) (hlossless : c.LosslessUpdate g update)
    (hbatch : g.Observes batch) (hnext : c.learn g update batch = some next) :
    next = g.given 0 (fun w => BatchHolds batch (w.node 0)) ∧
      (0 < g.distCount → 0 < g.probability true 0 (fun w => BatchHolds batch (w.node 0))) := by
  obtain ⟨backend, hbackend, hposteriors⟩ := Option.bind_eq_some_iff.mp hnext
  obtain ⟨f, hmeans, hmodel, hobserving, _⟩ := updateNetwork_exact hg hlossless hbatch hbackend
  exact posteriors_given hg hmeans hmodel hobserving hposteriors

/-! ## What some batches come to -/

/-- Every network of some batches is without loss: the first one, which has no batch, and that of
each update, which has the priors from before its batch. -/
def LosslessAlong (c : LearnerContext ℚ) (g : CausalGraph ℚ) (history : List Batch) : Prop :=
  -- For the network without a batch, `update - 1` is zero as well: its priors are the graph.
  ∀ update ≤ history.length, ∀ priors, c.learnAll g (history.take (update - 1)) = some priors →
    c.LosslessUpdate priors update

theorem LosslessAlong.first {more : List Batch}
    (hlossless : c.LosslessAlong g (history ++ more)) : c.LosslessAlong g history := by
  intro update hupdate priors hpriors
  have hle : update - 1 ≤ history.length := (Nat.sub_le _ _).trans hupdate
  apply hlossless update
  · rw [List.length_append]
    exact hupdate.trans (Nat.le_add_right _ _)
  · rwa [List.take_append_of_le_length hle]

theorem LosslessAlong.later {more : List Batch}
    (hlossless : c.LosslessAlong g (history ++ batch :: more)) {priors : CausalGraph ℚ}
    (hpriors : c.learnAll g history = some priors) :
    c.LosslessUpdate priors (history.length + 1) := by
  apply hlossless
  · rw [List.length_append, List.length_cons]
    omega
  · rwa [Nat.add_sub_cancel, List.take_left]

/-- The priors after some batches are the graph given these batches, which can have been. -/
theorem learnAll_given (hg : g.Proper) (hacyclic : Acyclic g.Derives) (hone : g.distCount = 1)
    (hhistory : ∀ batch ∈ history, g.Observes batch) (hlossless : c.LosslessAlong g history)
    {priors : CausalGraph ℚ} (hpriors : c.learnAll g history = some priors) :
    priors = g.given history.length (fun w => w.Holds history) ∧
      0 < g.probability true history.length (fun w => w.Holds history) := by
  induction history using List.reverseRecOn generalizing priors with
  | nil =>
      cases hpriors
      refine ⟨(CausalGraph.given_nil hg hacyclic hone).symm, ?_⟩
      rw [List.length_nil, CausalGraph.probability_nil hg hacyclic]
      norm_num
  | append_singleton history batch ih =>
      rw [learnAll_append] at hpriors
      obtain ⟨before, hbefore, hlearn⟩ := Option.bind_eq_some_iff.mp hpriors
      have hfirst : ∀ seen ∈ history, g.Observes seen :=
        fun seen hseen => hhistory seen (List.mem_append_left _ hseen)
      have hbatch : g.Observes batch :=
        hhistory batch (List.mem_append_right _ (List.mem_singleton_self batch))
      obtain ⟨rfl, hpositive⟩ := ih hfirst hlossless.first hbefore
      obtain ⟨rfl, hlater⟩ :=
        learn_given (hg.given hpositive) (hlossless.later hbefore) hbatch.given hlearn
      refine ⟨CausalGraph.given_given hg hacyclic hone hfirst hbatch hpositive, ?_⟩
      have hshare := hlater (by rw [CausalGraph.given_distCount, hone]; exact Nat.one_pos)
      rw [CausalGraph.probability_batch_given hg hacyclic hone hfirst hbatch hpositive] at hshare
      exact (div_pos_iff_of_pos_right hpositive).mp hshare

end LearnerContext

/-! ## Why an update fails -/

namespace ReplicaNetwork

variable {n : ReplicaNetwork ℚ} {repetitions limit bound : Nat} {event : World → Prop}
  [DecidablePred event]

omit [Numeral ℚ] in
theorem predictAll_fault (hinside : ¬ LimitOutside limit)
    (hn : n.Reports g true repetitions event bound) (hg : g.Proper)
    {asked : List (Nat × String)} (hasked : ∀ entry ∈ asked, entry.1 < g.nodeCount)
    {fault : LearnerFault ℚ} (hfault : IteratingLearner.predictAll n asked = .error fault) :
    Responds limit bound (g.probability true repetitions event) () (.error fault) := by
  induction asked generalizing n with
  | nil => cases hfault
  | cons entry asked ih =>
      rw [List.forall_mem_cons] at hasked
      have hreported := hn.predict hg hasked.1
      have hnext := hn.asked (fun _ _ hanswers => (predict_spec hanswers entry.1).2)
      unfold IteratingLearner.predictAll at hfault
      cases hpredict : n.predict entry.1 with
      | mk answer next =>
          rw [hpredict] at hfault hreported hnext
          cases answer with
          | error cause =>
              cases hfault
              exact (hreported.responds hinside).of_fault ()
          | ok p =>
              dsimp only at hfault
              rcases bind_eq_error_iff.mp hfault with hmore | ⟨_, _, hlast⟩
              · exact ih hnext hasked.2 hmore
              · cases hlast

omit [Numeral ℚ] in
theorem updatedDists_fault (hinside : ¬ LimitOutside limit)
    (hn : n.Reports g true repetitions event bound) (hg : g.Proper)
    {entries : List (Distribution ℚ × Nat)}
    (hentries : ∀ entry ∈ entries, g.dists[entry.2]? = some entry.1) {fault : LearnerFault ℚ}
    (hfault : (n.updatedDists entries).1 = .error fault) :
    Responds limit bound (g.probability true repetitions event) () (.error fault) := by
  induction entries generalizing n with
  | nil => cases hfault
  | cons entry entries ih =>
      rw [List.forall_mem_cons] at hentries
      have hdist : entry.2 < g.distCount := (List.getElem?_eq_some_iff.mp hentries.1).1
      have hreported := hn.posterior hg hdist
      have hnext := hn.asked (fun _ _ hanswers => (posterior_spec hanswers entry.2).2)
      unfold updatedDists at hfault
      cases hposterior : n.posterior entry.2 with
      | mk answer next =>
          rw [hposterior] at hreported hnext
          simp only [hposterior] at hfault
          cases answer with
          | error cause =>
              cases hfault
              exact (hreported.responds hinside).of_fault ()
          | ok belief =>
              cases hreported with
              | answered hpositive =>
                  dsimp only at hfault
                  rw [CausalGraph.reweigh_drawsGiven hg.dists hpositive hentries.1] at hfault
                  dsimp only at hfault
                  cases hmore : next.updatedDists entries with
                  | mk result last =>
                      rw [hmore] at hfault
                      cases result with
                      | error cause =>
                          cases hfault
                          exact ih hnext hentries.2 (by rw [hmore])
                      | ok more => cases hfault

omit [Numeral ℚ] in
theorem updateGraph_fault (hinside : ¬ LimitOutside limit)
    (hn : n.Reports g true repetitions event bound) (hg : g.Proper)
    {fault : LearnerFault ℚ} (hfault : (n.updateGraph g).1 = .error fault) :
    Responds limit bound (g.probability true repetitions event) () (.error fault) := by
  have hentries : ∀ entry ∈ g.dists.zipIdx, g.dists[entry.2]? = some entry.1 :=
    fun entry hentry => List.mem_zipIdx_iff_getElem?.mp hentry
  unfold updateGraph at hfault
  cases hdists : n.updatedDists g.dists.zipIdx with
  | mk result last =>
      rw [hdists] at hfault
      cases result with
      | error cause =>
          cases hfault
          exact updatedDists_fault hinside hn hg hentries (by rw [hdists])
      | ok dists => cases hfault

end ReplicaNetwork

open LearnerContext ReplicaNetwork

/-- The network of an update is created, unless it meets an obstacle or work is given up. -/
theorem LearnerContext.createNetwork_responds (hg : g.Proper)
    (hlossless : c.LosslessUpdate g update) {w : Workspace} {fault : LearnerFault ℚ}
    (hfault : (c.createNetwork w (updateName update) g 0 true).1 = .error fault) (weight : ℚ) :
    Responds c.clauseLimit c.options.maxTableEntries weight () (.error fault) := by
  rcases c.createNetwork_spec w (updateName update) g 0 true with
    hcancelled | ⟨result, hresult, hcreation⟩
  · cases hcancelled.symm.trans hfault
    exact .cancelled
  · cases result with
    | error cause =>
        cases hresult.symm.trans hfault
        exact .obstructed (hcreation.obstacle hg hlossless)
    | ok created => cases hresult.symm.trans hfault

theorem LearnerContext.createNetwork_bound (hg : g.Proper)
    (hlossless : c.LosslessUpdate g update) (hbatch : g.Observes batch) {w : Workspace}
    {fresh : ReplicaNetwork ℚ}
    (hfresh : (c.createNetwork w (updateName update) g 0 true).1 = .ok fresh) :
    ¬ LimitOutside c.clauseLimit ∧ ∃ bound, fresh.bindBatch batch 0 = .ok bound ∧
      bound.Reports g true 0 (fun w => BatchHolds batch (w.node 0))
        c.options.maxTableEntries := by
  rcases c.createNetwork_spec w (updateName update) g 0 true with
    hcancelled | ⟨result, hresult, hcreation⟩
  · cases hcancelled.symm.trans hfresh
  · cases result with
    | error cause => cases hresult.symm.trans hfresh
    | ok created =>
        cases hresult.symm.trans hfresh
        exact ⟨hcreation.limit_inside, hcreation.bindOne hg hlossless hbatch⟩

namespace IteratingLearner

theorem writeRanking_fault {n : ReplicaNetwork ℚ} {w : Workspace} {name : String}
    {fault : LearnerFault ℚ} (hfault : writeRanking c n w name = .error fault) :
    predictAll n c.queried = .error fault := by
  rcases bind_eq_error_iff.mp hfault with hpredicted | ⟨_, _, hwritten⟩
  · exact hpredicted
  · cases hwritten

/-- The recorded questions are about nodes of the graph. -/
def AsksAbout (g : CausalGraph ℚ) (c : LearnerContext ℚ) : Prop :=
  ∀ entry ∈ c.queried, entry.1 < g.nodeCount

theorem infer_fault {l : IteratingLearner ℚ} (hg : l.graph.Proper)
    (hlossless : l.context.LosslessUpdate l.graph (l.updates + 1))
    (hbatch : l.graph.Observes batch) (hasks : AsksAbout l.graph l.context) {w : Workspace}
    {fault : LearnerFault ℚ} (hfault : (l.infer w batch).1 = .error fault) :
    Responds l.context.clauseLimit l.context.options.maxTableEntries
      (l.graph.probability true 0 (fun w => BatchHolds batch (w.node 0))) () (.error fault) := by
  have hruns := infer_infers l w batch
  generalize l.infer w batch = result at hfault hruns
  cases hruns with
  | learned _ _ _ _ => cases hfault
  | uncreated hcreate =>
      cases hfault
      exact createNetwork_responds hg hlossless (congrArg Prod.fst hcreate) _
  | unbound hcreate hunbound =>
      obtain ⟨_, _, hbound, _⟩ :=
        createNetwork_bound hg hlossless hbatch (congrArg Prod.fst hcreate)
      cases hunbound.symm.trans hbound
  | unranked hcreate hbound hranked =>
      cases hfault
      obtain ⟨hinside, _, hsame, hreports⟩ :=
        createNetwork_bound hg hlossless hbatch (congrArg Prod.fst hcreate)
      cases hbound.symm.trans hsame
      exact predictAll_fault hinside hreports hg hasks (writeRanking_fault hranked)
  | unlearned hcreate hbound hranked hupdate =>
      cases hfault
      obtain ⟨hinside, _, hsame, hreports⟩ :=
        createNetwork_bound hg hlossless hbatch (congrArg Prod.fst hcreate)
      cases hbound.symm.trans hsame
      obtain ⟨⟨ranking, last⟩, hpredicted, hlisted⟩ := bind_eq_ok_iff.mp hranked
      cases hlisted
      have hkept := hreports.asked (fun _ _ hanswers => predictAll_ok hanswers hpredicted)
      exact updateGraph_fault hinside hkept hg (congrArg Prod.fst hupdate)

end IteratingLearner

end Exact

end DerivationBelief

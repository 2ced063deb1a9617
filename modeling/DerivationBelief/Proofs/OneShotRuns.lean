import DerivationBelief.DecimalText
import DerivationBelief.OneShotLearner
import DerivationBelief.Proofs.EventAnswers
import DerivationBelief.Proofs.ReproducibleAnswers
import Mathlib.Tactic

/-!
# Answers given the whole history

Whatever calls are made, a network that reflects the history has each batch bound in its own
replica.  Over exact fractions, and when the text of the compiled graph is read back without loss,
an answer is therefore the probability of the node given all batches.
-/

namespace DerivationBelief

namespace OneShotLearner

open ReplicaNetwork

section Runs

variable {α : Type} [Scalar α] [Numeral α]

/-! ## What every call keeps -/

/-- The network of a history of so many batches. -/
def networkName (name : String) (batches : Nat) : String :=
  name ++ s!"_{batches}"

/-- What comes of creating the network of a history. -/
def CreationFor (name : String) (c : LearnerContext α) (g : CausalGraph α) (batches : Nat) :
    Except NetworkFault (ReplicaNetwork α) → Prop :=
  CreationOf (networkName name batches) (c.fileOf (networkName name batches)) g batches true
    c.clauseLimit c.options

/-- A network that answers as one that was created for the graph and had the history bound. -/
def HoldsHistory (name : String) (c : LearnerContext α) (g : CausalGraph α)
    (history : List Batch) (n : ReplicaNetwork α) : Prop :=
  ∃ created bound model evidence, CreationFor name c g history.length (.ok created) ∧
    bindHistory created history = .ok bound ∧ bound.Answers model evidence ∧
    n.Answers model evidence ∧ n.shell = bound.shell

inductive RefreshOf (name : String) (c : LearnerContext α) (g : CausalGraph α)
    (history : List Batch) : Except (LearnerFault α) (ReplicaNetwork α) → Prop
  | cancelled : RefreshOf name c g history (.error .cancelled)
  | uncreated {cause : NetworkFault}
      (hcreation : CreationFor name c g history.length (.error cause)) :
      RefreshOf name c g history (.error (.network cause))
  | unbound {created : ReplicaNetwork α} {fault : LearnerFault α}
      (hcreation : CreationFor name c g history.length (.ok created))
      (hbind : bindHistory created history = .error fault) :
      RefreshOf name c g history (.error fault)
  | held {n : ReplicaNetwork α} (hn : HoldsHistory name c g history n) :
      RefreshOf name c g history (.ok n)

/-- What is known of a learner between calls. -/
structure Serves (name : String) (c : LearnerContext α) (g : CausalGraph α)
    (history : List Batch) (l : OneShotLearner α) : Prop where
  name_eq : l.name = name
  graph_eq : l.graph = g
  history_eq : l.history = history
  context_eq : l.context = { c with queried := l.context.queried }
  held : l.state = .clean → ∀ n, l.network = some n → HoldsHistory name c g history n

variable {name : String} {c : LearnerContext α} {g : CausalGraph α} {history : List Batch}
  {l : OneShotLearner α}

omit [Numeral α] in
theorem bindHistory_answers {n bound : ReplicaNetwork α}
    (hn : ∃ backend, n.backend = some backend ∧ backend.Fresh)
    (hbound : bindHistory n history = .ok bound) :
    ∃ model evidence, bound.Answers model evidence := by
  unfold bindHistory at hbound
  have hlast := foldlM_keeps
    (fun m : ReplicaNetwork α => ∃ backend, m.backend = some backend ∧ backend.Fresh)
    (by
      rintro m entry next ⟨backend, hbackend, hfresh⟩ hnext
      obtain ⟨last, hlast, rfl⟩ := bindBatch_ok hbackend hnext
      exact ⟨last, rfl, ExactNetwork.bind?_fresh hfresh hlast⟩)
    hn hbound
  obtain ⟨backend, hbackend, hfresh⟩ := hlast
  exact ⟨_, _, .of_backend hbackend hfresh⟩

theorem holdsHistory_of_bound {created bound : ReplicaNetwork α}
    (hcreation : CreationFor name c g history.length (.ok created))
    (hbind : bindHistory created history = .ok bound) : HoldsHistory name c g history bound := by
  have hloaded : ∃ backend, created.backend = some backend ∧ backend.Fresh := by
    cases hcreation with
    | loaded _ hread => exact ⟨_, rfl, (FactorGraph.readBack_fresh hread).2⟩
  obtain ⟨model, evidence, hanswers⟩ := bindHistory_answers hloaded hbind
  exact ⟨created, bound, model, evidence, hcreation, hbind, hanswers, hanswers, rfl⟩

theorem HoldsHistory.asked {n next : ReplicaNetwork α} (hn : HoldsHistory name c g history n)
    (hnext : ∀ model evidence, n.Answers model evidence →
      next.Answers model evidence ∧ next.shell = n.shell) : HoldsHistory name c g history next := by
  obtain ⟨created, bound, model, evidence, hcreation, hbind, hbound, hanswers, hshell⟩ := hn
  obtain ⟨hkept, hsame⟩ := hnext model evidence hanswers
  exact ⟨created, bound, model, evidence, hcreation, hbind, hbound, hkept, hsame.trans hshell⟩

/-- Networks that hold the same history come to the same answers. -/
theorem HoldsHistory.same {n m : ReplicaNetwork α} (hn : HoldsHistory name c g history n)
    (hm : HoldsHistory name c g history m) : n.SameAnswers m := by
  obtain ⟨created, bound, model, evidence, hcreation, hbind, hbound, hanswers, hshell⟩ := hn
  obtain ⟨other, rebound, _, _, hother, hrebind, hrebound, hagain, hsame⟩ := hm
  -- Compiling and reading back come to one network, and so does binding.
  have hcreated : created = other := by
    cases hcreation with
    | loaded hcompile hread =>
        cases hother with
        | loaded hrecompile hreread =>
            cases hcompile.symm.trans hrecompile
            cases hread.symm.trans hreread
            rfl
  subst hcreated
  cases hbind.symm.trans hrebind
  obtain ⟨rfl, rfl⟩ := hbound.unique hrebound
  exact ⟨_, _, hanswers, hagain, (congrArg ReplicaNetwork.offset (hshell.trans hsame.symm) :)⟩

theorem Serves.refresh (hl : Serves name c g history l) (w : Workspace) :
    RefreshOf name c g history (l.refresh w).1 ∧ Serves name c g history (l.refresh w).2.1 := by
  -- The old network is given up first, so a failure leaves the learner without any.
  have hreleased : Serves name c g history { l with network := none } :=
    { hl with
      held := by
        intro _ n hn
        cases hn }
  unfold OneShotLearner.refresh
  split
  next network hstate hnetwork => exact ⟨.held (hl.held hstate network hnetwork), hl⟩
  next =>
    dsimp only
    have hcreation := l.context.createNetwork_spec w (l.name ++ s!"_{l.history.length}") l.graph
      l.history.length true
    cases hcreate : l.context.createNetwork w (l.name ++ s!"_{l.history.length}") l.graph
        l.history.length true with
    | mk answer next =>
        rw [hcreate] at hcreation
        rcases hcreation with hcancelled | ⟨result, hresult, hcreation⟩
        · cases hcancelled
          exact ⟨.cancelled, hreleased⟩
        · cases hresult
          rw [hl.context_eq, hl.graph_eq, hl.history_eq, hl.name_eq] at hcreation
          cases result with
          | error cause => exact ⟨.uncreated hcreation, hreleased⟩
          | ok created =>
              dsimp only [Except.mapError]
              cases hbind : bindHistory created l.history with
              | error fault => exact ⟨.unbound hcreation (hl.history_eq ▸ hbind), hreleased⟩
              | ok bound =>
                  have hholds : HoldsHistory name c g history bound :=
                    holdsHistory_of_bound hcreation (hl.history_eq ▸ hbind)
                  have hserves : Serves name c g history
                      { l with network := some bound, state := .clean } :=
                    { hl with
                      held := by
                        intro _ n hn
                        cases hn
                        exact hholds }
                  exact ⟨.held hholds, hserves⟩

/-- Learners with the same history come to networks of the same answers. -/
theorem Serves.refresh_same {other : OneShotLearner α} (hl : Serves name c g history l)
    (hother : Serves name c g history other) {w w' : Workspace} {n m : ReplicaNetwork α}
    (hn : (l.refresh w).1 = .ok n) (hm : (other.refresh w').1 = .ok m) : n.SameAnswers m := by
  have hfirst := (hl.refresh w).1
  have hsecond := (hother.refresh w').1
  rw [hn] at hfirst
  rw [hm] at hsecond
  cases hfirst with
  | held hholds =>
      cases hsecond with
      | held hagain => exact hholds.same hagain

theorem Serves.ask {β : Type} (hl : Serves name c g history l)
    {question : ReplicaNetwork α → Outcome NetworkFault β (ReplicaNetwork α)}
    (hquestion : ∀ n model evidence, n.Answers model evidence →
      (question n).2.Answers model evidence ∧ (question n).2.shell = n.shell) (w : Workspace) :
    Serves name c g history (ReplicaNetwork.ask question keep (l.refresh w)).2.1 := by
  obtain ⟨hrefresh, hserves⟩ := hl.refresh w
  rcases ask_cases question keep (l.refresh w) with ⟨_, _, hasked⟩ | ⟨n, hok, hasked⟩
  · rw [hasked]
    exact hserves
  · rw [hok] at hrefresh
    rw [hasked]
    cases hrefresh with
    | held hn =>
        exact { hserves with
          held := by
            intro _ next hnext
            cases hnext
            exact hn.asked (hquestion n) }

theorem Serves.recordQuery (hl : Serves name c g history l) (id : Nat) (node : String) :
    Serves name c g history { l with context := l.context.recordQuery id node } :=
  { hl with
    context_eq := LearnerContext.recordQuery_eq hl.context_eq id node }

theorem Serves.append (hl : Serves name c g history l) (observation : Observation) :
    Serves name c g (history ++ [g.batchOf observation]) (l.append observation) where
  name_eq := hl.name_eq
  graph_eq := hl.graph_eq
  history_eq := by
    unfold OneShotLearner.append
    dsimp only
    rw [hl.history_eq, hl.graph_eq]
  context_eq := hl.context_eq
  held := by
    intro hstate
    cases hstate

/-! ## Runs -/

def perform (l : OneShotLearner α) (w : Workspace) : LearnerCall → OneShotLearner α
  | .append records => l.append (.ofRecords records)
  | .query node => (l.query w node).2.1
  | .posterior dist => (l.posterior w dist).2.1

/-- Make calls one after the other, each in a workspace as it happens to be. -/
def run (l : OneShotLearner α) (calls : List (LearnerCall × Workspace)) : OneShotLearner α :=
  calls.foldl (fun l entry => l.perform entry.2 entry.1) l

theorem Serves.query (hl : Serves name c g history l) (w : Workspace) (node : String) :
    Serves name c g history (l.query w node).2.1 := by
  unfold OneShotLearner.query
  split
  · exact hl
  next id _ =>
      exact (hl.recordQuery id node).ask (fun n _ _ hn => (predict_spec hn id).2) w

theorem Serves.posterior (hl : Serves name c g history l) (w : Workspace) (dist : Nat) :
    Serves name c g history (l.posterior w dist).2.1 :=
  hl.ask (fun _ _ _ hn => (posterior_spec hn dist).2) w

theorem Serves.perform (hl : Serves name c g history l) (w : Workspace) (call : LearnerCall) :
    Serves name c g (history ++ g.appended [(call, w)]) (l.perform w call) := by
  cases call with
  | append records => exact hl.append (.ofRecords records)
  | query node => exact (List.append_nil history).symm ▸ hl.query w node
  | posterior dist => exact (List.append_nil history).symm ▸ hl.posterior w dist

theorem Serves.run (hl : Serves name c g history l) (calls : List (LearnerCall × Workspace)) :
    Serves name c g (history ++ g.appended calls) (l.run calls) :=
  CausalGraph.kept_along (fun _ _ hkept => hkept.perform) hl calls

theorem Serves.new (name : String) (c : LearnerContext α) (g : CausalGraph α) :
    Serves name c g [] (new name c g) where
  name_eq := rfl
  graph_eq := rfl
  history_eq := rfl
  context_eq := rfl
  held := by
    intro hstate
    cases hstate

/-- A learner without a current network takes up the one that is created for its history. -/
theorem Serves.refresh_created (hl : Serves name c g history l) (hdirty : l.state = .dirty)
    {w : Workspace} {created bound : ReplicaNetwork α}
    (hcreate : (c.createNetwork w (networkName name history.length) g history.length true).1 =
      .ok created)
    (hbind : bindHistory created history = .ok bound) : (l.refresh w).1 = .ok bound := by
  obtain ⟨w', hresult⟩ : ∃ w', c.createNetwork w (networkName name history.length) g
      history.length true = (.ok created, w') := ⟨_, Prod.ext hcreate rfl⟩
  -- What has been asked is recorded in the context but not compiled.
  have hsame : ({ c with queried := l.context.queried } : LearnerContext α).createNetwork
      w (name ++ s!"_{history.length}") g history.length true = (.ok created, w') := hresult
  unfold OneShotLearner.refresh
  split
  next hclean _ => cases hdirty.symm.trans hclean
  next =>
    dsimp only
    rw [hl.name_eq, hl.graph_eq, hl.history_eq, hl.context_eq, hsame]
    dsimp only
    rw [hbind]

/-- Learners with the same history agree on a node wherever both answer. -/
theorem Serves.query_agrees {other : OneShotLearner α} (hl : Serves name c g history l)
    (hother : Serves name c g history other) {w w' : Workspace} {node : String} {p q : α}
    (hp : (l.query w node).1 = .ok p) (hq : (other.query w' node).1 = .ok q) : p = q := by
  unfold OneShotLearner.query at hp hq
  have hnode : l.graph.nodeId? node = g.nodeId? node := by rw [hl.graph_eq]
  have hsame : other.graph.nodeId? node = g.nodeId? node := by rw [hother.graph_eq]
  rw [hnode] at hp
  rw [hsame] at hq
  cases hid : g.nodeId? node with
  | none =>
      rw [hid] at hp
      cases hp
  | some id =>
      rw [hid] at hp hq
      exact (predict_neutral id).ask_agrees
        (fun _ _ => (hl.recordQuery id node).refresh_same (hother.recordQuery id node)) hp hq

theorem Serves.posterior_agrees {other : OneShotLearner α} (hl : Serves name c g history l)
    (hother : Serves name c g history other) {w w' : Workspace} {dist : Nat} {p q : List α}
    (hp : (l.posterior w dist).1 = .ok p) (hq : (other.posterior w' dist).1 = .ok q) : p = q :=
  (posterior_neutral dist).ask_agrees (fun _ _ => hl.refresh_same hother) hp hq

/-! ## Binding a history -/

omit [Scalar α] [Numeral α] in
theorem bindHistory_bound {n : ReplicaNetwork α} {backend : ExactNetwork α}
    (hloaded : n.backend = some backend) (hactivated : n.activated = false)
    (hhistory : ∀ entry ∈ history.zipIdx, entry.2 + 1 ≤ n.repetitions ∧
      ∀ observed ∈ entry.1, observed.1 < n.nodeCount ∧
        backend.model.cardOf (n.variableOf (entry.2 + 1) observed.1) = .ok 2) :
    ∃ bound, bindHistory n history = .ok { n with backend := some bound } ∧
      bound.model = backend.model ∧
      bound.evidence = Arrival.putAll backend.evidence (history.zipIdx.flatMap (fun entry =>
        entry.1.map (fun observed =>
          (n.variableOf (entry.2 + 1) observed.1, observed.2.toNat)))) := by
  unfold bindHistory
  generalize history.zipIdx = entries at hhistory ⊢
  induction entries generalizing n backend with
  | nil =>
      refine ⟨backend, ?_, rfl, rfl⟩
      rw [← hloaded]
      rfl
  | cons entry entries ih =>
      rw [List.forall_mem_cons] at hhistory
      obtain ⟨⟨htime, hbatch⟩, hrest⟩ := hhistory
      obtain ⟨first, hfirst, hmodel, hevidence⟩ := bindBatch_bound hloaded hactivated htime hbatch
      rw [← hmodel] at hrest
      obtain ⟨bound, hbound, hsame, hall⟩ :=
        @ih { n with backend := some first } first rfl hactivated hrest
      refine ⟨bound, ?_, hsame.trans hmodel, ?_⟩
      · exact foldlM_cons_eq_ok_iff.mpr ⟨_, hfirst, hbound⟩
      · rw [hall, hevidence, List.flatMap_cons]
        exact List.foldl_append.symm

end Runs

/-! ## Exact answers -/

section Exact

variable [Numeral ℚ] {name : String} {c : LearnerContext ℚ} {g : CausalGraph ℚ}
  {history : List Batch}

/-- The text of the network of a history, if it is compiled, reads back to its factors. -/
def LosslessFor (name : String) (c : LearnerContext ℚ) (g : CausalGraph ℚ) (batches : Nat) :
    Prop :=
  ∀ f, FactorGraph.compile g batches true c.clauseLimit = .ok f →
    f.Lossless (c.fileOf (networkName name batches))

/-- A network for a history has the model of the compiled graph, with the history as evidence. -/
structure ExactFor (bound : Nat) (g : CausalGraph ℚ) (history : List Batch) (n : ReplicaNetwork ℚ)
    (f : FactorGraph ℚ) (model : TableNetwork ℚ) : Prop where
  means : f.Means g true history.length
  model_holds : model.Holds (g.stateCount true) f.factors
  limit_eq : model.limit = bound
  answers : n.Answers model (f.layout.boundHistory history)
  nodeCount_eq : n.nodeCount = g.nodeCount
  variableOf_eq : ∀ node, n.variableOf 0 node = f.layout.nodeVar 0 node

omit [Numeral ℚ] in
/-- Every observed node of a history has a binary variable in a replica that exists. -/
theorem history_bindable (hg : g.Proper) (hhistory : ∀ batch ∈ history, g.Observes batch)
    {f : FactorGraph ℚ} (hf : f.Means g true history.length) {model : TableNetwork ℚ}
    (hmodel : model.Holds (g.stateCount true) f.factors) :
    ∀ entry ∈ history.zipIdx, entry.2 + 1 ≤ history.length ∧
      ∀ observed ∈ entry.1, observed.1 < g.nodeCount ∧
        model.cardOf (f.layout.nodeVar (entry.2 + 1) observed.1) = .ok 2 := by
  intro entry hentry
  have hreplica : entry.2 + 1 ≤ history.length := List.snd_lt_of_mem_zipIdx hentry
  refine ⟨hreplica, ?_⟩
  intro observed hobserved
  have hlt := (hhistory _ (List.fst_mem_of_mem_zipIdx hentry)).node_lt observed hobserved
  have hcard := hmodel.cardOf (CausalGraph.stateCount_pos hg.dists)
    (hf.nodeVar_mem hreplica hlt)
  rw [VariableLayout.nodeVar_states hf.describes] at hcard
  exact ⟨hlt, hcard⟩

/-- A network that has been created without loss has the factors of the compiled graph, and any
history can be bound in it. -/
theorem created_exact (hg : g.Proper) (hlossless : LosslessFor name c g history.length)
    (hhistory : ∀ batch ∈ history, g.Observes batch) {created : ReplicaNetwork ℚ}
    (hcreation : CreationFor name c g history.length (.ok created)) :
    ∃ bound f model, bindHistory created history = .ok bound ∧
      ExactFor c.options.maxTableEntries g history bound f model := by
  cases hcreation with
  | @loaded compiled backend hcompile hread =>
      have hmeans : compiled.Means g true history.length :=
        FactorGraph.means_of_compiled hg hcompile
      obtain ⟨hholds, hlimit⟩ := hmeans.readBack_holds (hlossless compiled hcompile) hread
      obtain ⟨hnone, hfresh⟩ := FactorGraph.readBack_fresh hread
      set created := ofCompiled (networkName name history.length)
        (c.fileOf (networkName name history.length)) g.nodeCount history.length compiled.layout
        backend
      obtain ⟨bound, hbound, hsame, hevidence⟩ := bindHistory_bound (n := created) rfl rfl
        (history_bindable hg hhistory hmeans hholds)
      obtain ⟨model, evidence, hanswers⟩ := bindHistory_answers ⟨backend, rfl, hfresh⟩ hbound
      refine ⟨_, compiled, backend.model, hbound, ?_⟩
      have hkeys := VariableLayout.boundHistory_keys hmeans.describes hhistory
      have hall : bound.evidence = compiled.layout.boundHistory history := by
        rw [hevidence, hnone]
        exact Arrival.putAll_of_new hkeys
      obtain ⟨last, hlast, rfl, rfl, hfreshLast⟩ := hanswers
      cases hlast
      constructor
      case means => exact hmeans
      case model_holds => exact hholds
      case limit_eq => exact hlimit
      case answers => exact ⟨bound, rfl, hsame, hall, hfreshLast⟩
      case nodeCount_eq => rfl
      case variableOf_eq => exact fun _ => rfl

theorem HoldsHistory.exact (hg : g.Proper) (hlossless : LosslessFor name c g history.length)
    (hhistory : ∀ batch ∈ history, g.Observes batch) {n : ReplicaNetwork ℚ}
    (hn : HoldsHistory name c g history n) :
    ∃ f model, ExactFor c.options.maxTableEntries g history n f model := by
  obtain ⟨created, bound, model, evidence, hcreation, hbind, hbound, hanswers, hshell⟩ := hn
  obtain ⟨same, f, exactModel, hsame, hexact⟩ := created_exact hg hlossless hhistory hcreation
  cases hbind.symm.trans hsame
  obtain ⟨rfl, rfl⟩ := hbound.unique hexact.answers
  refine ⟨f, exactModel, ?_⟩
  constructor
  case means => exact hexact.means
  case model_holds => exact hexact.model_holds
  case limit_eq => exact hexact.limit_eq
  case answers => exact hanswers
  case nodeCount_eq => exact (congrArg ReplicaNetwork.nodeCount hshell :).trans hexact.nodeCount_eq
  case variableOf_eq =>
    intro node
    have hvariable : n.variableOf 0 node = bound.variableOf 0 node :=
      congrArg (fun m => m.variableOf 0 node) hshell
    exact hvariable.trans (hexact.variableOf_eq node)

/-! ## Answers to questions -/

/-- What a question about a node may come to: its probability given the history, evidence that
contradicts itself, a table too large for the bound, a file that cannot be written, or
cancellation. -/
inductive Predicted (bound : Nat) (g : CausalGraph ℚ) (history : List Batch) (n : Nat) :
    Except (LearnerFault ℚ) ℚ → Prop
  | answered (hpositive : 0 < g.probability true history.length (fun w => w.Holds history)) :
      Predicted bound g history n (.ok (g.predictive true history n))
  | inconsistent (hzero : g.probability true history.length (fun w => w.Holds history) = 0) :
      Predicted bound g history n (.error (.network (.solver .inconsistentEvidence)))
  | tooLarge {size : Nat} (hlarge : Oversized size bound) :
      Predicted bound g history n (.error (.network (.solver (.tableTooLarge size bound))))
  | unwritable (path : String) :
      Predicted bound g history n (.error (.network (.compile (.unwritable path))))
  | cancelled : Predicted bound g history n (.error .cancelled)

omit [Numeral ℚ] in
theorem ExactFor.reports {n : ReplicaNetwork ℚ} {f : FactorGraph ℚ} {model : TableNetwork ℚ}
    {bound : Nat} (hn : ExactFor bound g history n f model)
    (hhistory : ∀ batch ∈ history, g.Observes batch) :
    n.Reports g true history.length (fun w => w.Holds history) bound := by
  refine ⟨f, model, f.layout.boundHistory history, ?_⟩
  constructor
  case means => exact hn.means
  case model_holds => exact hn.model_holds
  case limit_eq => exact hn.limit_eq
  case observing => exact hn.means.observing_history hhistory
  case answers => exact hn.answers
  case nodeCount_eq => exact hn.nodeCount_eq
  case offset_eq =>
    have hfirst := hn.variableOf_eq 0
    rw [← hn.means.describes.distCount_eq]
    simpa [variableOf, VariableLayout.nodeVar, VariableLayout.offset] using hfirst
  case variableOf_eq => exact hn.variableOf_eq

/-- What a refreshed learner holds reports the graph given the history. -/
theorem Serves.refreshed {l : OneShotLearner ℚ} (hl : Serves name c g history l)
    (hg : g.Proper) (hlossless : LosslessFor name c g history.length)
    (hhistory : ∀ batch ∈ history, g.Observes batch) (w : Workspace) :
    (∃ n, (l.refresh w).1 = .ok n ∧ ¬ LimitOutside c.clauseLimit ∧
      n.Reports g true history.length (fun w => w.Holds history) c.options.maxTableEntries) ∨
    (l.refresh w).1 = .error .cancelled ∨
    ∃ cause, (l.refresh w).1 = .error (.network cause) ∧
      Obstacle c.clauseLimit c.options.maxTableEntries cause := by
  have hrefresh := (hl.refresh w).1
  cases hanswer : (l.refresh w).1 with
  | ok n =>
      rw [hanswer] at hrefresh
      cases hrefresh with
      | held hn =>
          obtain ⟨f, model, hexact⟩ := hn.exact hg hlossless hhistory
          obtain ⟨_, _, _, _, hcreation, _⟩ := hn
          exact Or.inl ⟨n, rfl, hcreation.limit_inside, hexact.reports hhistory⟩
  | error fault =>
      rw [hanswer] at hrefresh
      cases hrefresh with
      | cancelled => exact Or.inr (Or.inl rfl)
      | uncreated hcreation =>
          exact Or.inr (Or.inr ⟨_, rfl, hcreation.obstacle hg hlossless⟩)
      | unbound hcreation hbind =>
          obtain ⟨bound, _, _, hbound, _⟩ := created_exact hg hlossless hhistory hcreation
          cases hbind.symm.trans hbound

/-- A learner responds to a question as a network does that reports the graph given the history. -/
theorem Serves.ask_responds {β : Type} {l : OneShotLearner ℚ} (hl : Serves name c g history l)
    (hg : g.Proper) (hlossless : LosslessFor name c g history.length)
    (hhistory : ∀ batch ∈ history, g.Observes batch) {weight : ℚ} {right : β}
    {question : ReplicaNetwork ℚ → Outcome NetworkFault β (ReplicaNetwork ℚ)}
    (hquestion : ∀ n : ReplicaNetwork ℚ,
      n.Reports g true history.length (fun w => w.Holds history) c.options.maxTableEntries →
        Reported c.options.maxTableEntries weight right (question n).1) (w : Workspace) :
    Responds c.clauseLimit c.options.maxTableEntries weight right
      (ReplicaNetwork.ask question keep (l.refresh w)).1 := by
  rcases ask_cases question keep (l.refresh w) with ⟨fault, hfault, hasked⟩ | ⟨n, hok, hasked⟩
  · rw [hasked]
    rcases hl.refreshed hg hlossless hhistory w with
      ⟨n, hn, _, _⟩ | hcancelled | ⟨cause, hcause, hobstacle⟩
    · cases hfault.symm.trans hn
    · cases hfault.symm.trans hcancelled
      exact .cancelled
    · cases hfault.symm.trans hcause
      exact .obstructed hobstacle
  · rw [hasked]
    rcases hl.refreshed hg hlossless hhistory w with
      ⟨m, hm, hinside, hreports⟩ | hcancelled | ⟨cause, hcause, _⟩
    · cases hok.symm.trans hm
      exact (hquestion n hreports).responds hinside
    · cases hok.symm.trans hcancelled
    · cases hok.symm.trans hcause

theorem Serves.query_responds {l : OneShotLearner ℚ} (hl : Serves name c g history l)
    (hg : g.Proper) (hlossless : LosslessFor name c g history.length)
    (hhistory : ∀ batch ∈ history, g.Observes batch) (w : Workspace) {node : String} {id : Nat}
    (hnode : g.nodeId? node = some id) :
    Responds c.clauseLimit c.options.maxTableEntries
      (g.probability true history.length (fun w => w.Holds history))
      (g.predictive true history id) (l.query w node).1 := by
  have hid : l.graph.nodeId? node = some id := hl.graph_eq ▸ hnode
  unfold OneShotLearner.query
  rw [hid]
  exact (hl.recordQuery id node).ask_responds hg hlossless hhistory
    (fun _ hn => hn.predict hg (CausalGraph.nodeIn?_lt hnode)) w

theorem Serves.posterior_responds {l : OneShotLearner ℚ} (hl : Serves name c g history l)
    (hg : g.Proper) (hlossless : LosslessFor name c g history.length)
    (hhistory : ∀ batch ∈ history, g.Observes batch) (w : Workspace) {dist : Nat}
    (hdist : dist < g.distCount) :
    Responds c.clauseLimit c.options.maxTableEntries
      (g.probability true history.length (fun w => w.Holds history))
      (g.drawsGiven true history.length (fun w => w.Holds history) dist) (l.posterior w dist).1 :=
  hl.ask_responds hg hlossless hhistory (fun _ hn => hn.posterior hg hdist) w

/-- A question after a history comes to what is predicted, or its clause limit is out of range. -/
theorem Serves.query_predicted {l : OneShotLearner ℚ} (hl : Serves name c g history l)
    (hg : g.Proper) (hlossless : LosslessFor name c g history.length)
    (hhistory : ∀ batch ∈ history, g.Observes batch) (w : Workspace) {node : String} {id : Nat}
    (hnode : g.nodeId? node = some id) :
    Predicted c.options.maxTableEntries g history id (l.query w node).1 ∨
      ((l.query w node).1 = .error (.network (.compile (.clauseLimit c.clauseLimit))) ∧
        (c.clauseLimit < 2 ∨ FactorGraph.maxClauseLimit < c.clauseLimit)) := by
  have hresponds := hl.query_responds hg hlossless hhistory w hnode
  cases hanswer : (l.query w node).1 with
  | ok p =>
      rw [hanswer] at hresponds
      cases hresponds with
      | answered _ hpositive => exact Or.inl (.answered hpositive)
  | error fault =>
      rw [hanswer] at hresponds
      cases hresponds with
      | inconsistent _ hzero => exact Or.inl (.inconsistent hzero)
      | cancelled => exact Or.inl .cancelled
      | obstructed hcause =>
          cases hcause with
          | clauseLimit houtside => exact Or.inr ⟨rfl, houtside⟩
          | unwritable path => exact Or.inl (.unwritable path)
          | tooLarge hlarge => exact Or.inl (.tooLarge hlarge)

omit [Numeral ℚ] in
theorem appended_observes {α : Type} (g : CausalGraph α)
    (calls : List (LearnerCall × Workspace)) :
    ∀ batch ∈ g.appended calls, g.Observes batch := by
  intro batch hbatch
  obtain ⟨⟨call, _⟩, _, hcall⟩ := List.mem_filterMap.mp hbatch
  cases call with
  | append records =>
      cases hcall
      exact g.batchOf_observes records
  | query _ => cases hcall
  | posterior _ => cases hcall

/-- Whatever calls were made, the learner keeps its graph, and an answer about a node is the
probability that it holds, given that every appended batch holds in its replica.  Faults are those
of evidence, tables, files and cancellation, and of a clause limit out of range. -/
theorem query_predictive (name : String) (c : LearnerContext ℚ) {g : CausalGraph ℚ}
    (hg : g.Constructed) (hvalid : g.validate = .ok ()) (hacyclic : Acyclic g.Derives)
    (hdists : ∀ d ∈ g.dists, d.WellFormed) (calls : List (LearnerCall × Workspace))
    (hlossless : LosslessFor name c g (g.appended calls).length) (w : Workspace) {node : String}
    {id : Nat} (hnode : g.nodeId? node = some id) :
    g.probability true (g.appended calls).length (fun _ => True) = 1 ∧
    ((new name c g).run calls).graph = g ∧ (((new name c g).run calls).query w node).2.1.graph = g ∧
    (Predicted c.options.maxTableEntries g (g.appended calls) id
        (((new name c g).run calls).query w node).1 ∨
      ((((new name c g).run calls).query w node).1 =
          .error (.network (.compile (.clauseLimit c.clauseLimit))) ∧
        (c.clauseLimit < 2 ∨ FactorGraph.maxClauseLimit < c.clauseLimit))) := by
  have hproper : g.Proper := ⟨hg.coherent, hvalid, hdists⟩
  have hserves : Serves name c g (g.appended calls) ((new name c g).run calls) :=
    (Serves.new name c g).run calls
  exact ⟨CausalGraph.probability_certain hg.coherent hacyclic hdists, hserves.graph_eq,
    (hserves.query w node).graph_eq,
    hserves.query_predicted hproper hlossless (appended_observes g calls) w hnode⟩

end Exact

/-! ## A street that was wet -/

section Street

open FactorGraph

/-- The digits of a nonnegative fraction with a finite decimal expansion. -/
def decimalChars (x : ℚ) : List Char :=
  let places := ((List.range 20).find? (fun places => 10 ^ places % x.den = 0)).getD 20
  Decimal.positional false ⟨x.num.natAbs * 10 ^ places / x.den, -(places : Int)⟩

/-- The fraction of decimal digits. -/
def readDecimal? (digits : List Char) : Option ℚ := do
  let places := (digits.dropWhile Text.isDigit).drop 1
  let coefficient ← Text.readDigits? (digits.takeWhile Text.isDigit ++ places)
  return mkRat coefficient (10 ^ places.length)

instance decimalNumeral : Numeral ℚ where
  text x := String.ofList (decimalChars x)
  pointedText x := String.ofList (decimalChars x)
  settingText x := String.ofList (decimalChars x)
  hundredthsText x := String.ofList (decimalChars x)
  read? := readDecimal?

def streetContext (limit : Nat) : LearnerContext ℚ :=
  .ofSettings "" { clauseLimit := some limit }

def quietWorkspace : Workspace :=
  ⟨.empty, .never⟩

theorem wetStreet_dists : ∀ d ∈ wetStreet.dists, d.WellFormed := by
  intro d hd
  rw [List.mem_singleton.mp hd]
  constructor <;> norm_num [evenOdds]

/-- With a clause limit of one even a learner without any history gives no answer. -/
theorem wetStreet_narrow_query :
    wetStreet.Constructed ∧ wetStreet.validate = .ok () ∧ Acyclic wetStreet.Derives ∧
      (∀ d ∈ wetStreet.dists, d.WellFormed) ∧
      LosslessFor "street" (streetContext 1) wetStreet 0 ∧ wetStreet.nodeId? "rain" = some 0 ∧
      ((new "street" (streetContext 1) wetStreet).query quietWorkspace "rain").1 =
        .error (.network (.compile (.clauseLimit 1))) ∧
      ¬ Predicted (streetContext 1).options.maxTableEntries wetStreet [] 0
        ((new "street" (streetContext 1) wetStreet).query quietWorkspace "rain").1 := by
  have hfault : ((new "street" (streetContext 1) wetStreet).query quietWorkspace "rain").1 =
      .error (.network (.compile (.clauseLimit 1))) := rfl
  have hlossless : LosslessFor "street" (streetContext 1) wetStreet 0 := by
    intro f hf
    cases hf
  refine ⟨wetStreet_constructed, rfl, wetStreet_acyclic, wetStreet_dists, hlossless, rfl, hfault,
    ?_⟩
  rw [hfault]
  intro hpredicted
  cases hpredicted

theorem wetStreet_lossless : LosslessFor "street" (streetContext 2) wetStreet 1 := by
  intro f hf
  apply lossless_of_reads _ hf
  -- Without the way from characters to a string and back there is much less to evaluate.
  simp only [Factor.parseAll, FactorGraph.text, LineReader.ofText, String.toList_ofList]
  decide +kernel

theorem wetStreet_lossless_twice : LosslessFor "street" (streetContext 2) wetStreet 2 := by
  intro f hf
  apply lossless_of_reads _ hf
  simp only [Factor.parseAll, FactorGraph.text, LineReader.ofText, String.toList_ofList]
  decide +kernel

/-- What is answered about the street can be computed without any files. -/
theorem wetStreet_asked {l : OneShotLearner ℚ} {history : List Batch}
    (hl : Serves "street" (streetContext 2) wetStreet history l) (hdirty : l.state = .dirty)
    (hlossless : LosslessFor "street" (streetContext 2) wetStreet history.length) {file : String}
    (hfile : (streetContext 2).fileOf (networkName "street" history.length) = file)
    (hname : FileTree.PlainName file) {β : Type}
    {question : ReplicaNetwork ℚ → Outcome NetworkFault β (ReplicaNetwork ℚ)} {p : β}
    (hvalue : (do
      let f ← (compile wetStreet history.length true 2).toOption
      let backend ← (ExactNetwork.ofFactors file (streetContext 2).options f.factors).toOption
      let bound ← (bindHistory (ReplicaNetwork.ofCompiled (networkName "street" history.length) file
        wetStreet.nodeCount history.length f.layout backend) history).toOption
      (question bound).1.toOption) = some p) :
    (ReplicaNetwork.ask question keep (l.refresh quietWorkspace)).1 = .ok p := by
  obtain ⟨f, hf, hvalue⟩ := Option.bind_eq_some_iff.mp hvalue
  obtain ⟨backend, hbackend, hvalue⟩ := Option.bind_eq_some_iff.mp hvalue
  obtain ⟨bound, hbound, hvalue⟩ := Option.bind_eq_some_iff.mp hvalue
  obtain ⟨written, hwrite⟩ := hname.write?_empty f.text
  have hread : f.readBack file (streetContext 2).options = .ok backend := by
    rw [← hfile, (hlossless f (eq_ok_of_toOption hf)).readBack_eq, hfile]
    exact eq_ok_of_toOption hbackend
  have hcreate := LearnerContext.createNetwork_loaded (c := streetContext 2)
    (w := quietWorkspace) rfl rfl (eq_ok_of_toOption hf) (hfile ▸ hwrite) (hfile ▸ hread)
  rw [hfile] at hcreate
  have hrefresh := hl.refresh_created hdirty hcreate (eq_ok_of_toOption hbound)
  rw [ask_of_ok hrefresh, eq_ok_of_toOption hvalue]
  rfl

/-- A street that was seen wet predicts rain. -/
theorem wetStreet_query_predictive :
    let seen := (new "street" (streetContext 2) wetStreet).run
      [(.append [("wet", true)], quietWorkspace)]
    wetStreet.probability true 1 (fun _ => True) = 1 ∧ seen.graph = wetStreet ∧
      (seen.query quietWorkspace "rain").2.1.graph = wetStreet ∧
      (Predicted (streetContext 2).options.maxTableEntries wetStreet [[(1, true)]] 0
          (seen.query quietWorkspace "rain").1 ∨
        ((seen.query quietWorkspace "rain").1 =
            .error (.network (.compile (.clauseLimit 2))) ∧ (2 < 2 ∨ maxClauseLimit < 2))) :=
  query_predictive "street" (streetContext 2) wetStreet_constructed rfl wetStreet_acyclic
    wetStreet_dists [(.append [("wet", true)], quietWorkspace)] wetStreet_lossless quietWorkspace
    (rfl : wetStreet.nodeId? "rain" = some 0)

end Street

end OneShotLearner

end DerivationBelief

import DerivationBelief.LearnerContext
import DerivationBelief.Proofs.FaultyRuns
import DerivationBelief.Proofs.FileTree
import Mathlib.Tactic

/-!
# Networks answer from their model and evidence

A network may remember beliefs and note what it was asked, but what it answers depends only on its
model and on the evidence that was bound.  So questions change nothing that a later answer could
depend on.  A network that a learner creates has the model of the factors read back from the text
of the compiled graph, without any evidence.
-/

namespace DerivationBelief

variable {α : Type} [Scalar α]

namespace ExactNetwork

/-- What is remembered is what the model gives under the evidence. -/
def Fresh (n : ExactNetwork α) : Prop :=
  ∀ v belief, Arrival.get? n.beliefs v = some belief → n.model.belief n.evidence v = .ok belief

/-- A question is answered from the model, and what it remembers is right. -/
theorem queryStates_spec {n : ExactNetwork α} (hn : n.Fresh) (v : Nat) :
    (n.queryStates v).1 = n.model.belief n.evidence v ∧
      (n.queryStates v).2.model = n.model ∧ (n.queryStates v).2.evidence = n.evidence ∧
      (n.queryStates v).2.Fresh := by
  unfold queryStates
  cases hget : Arrival.get? n.beliefs v with
  | some belief => exact ⟨(hn v belief hget).symm, rfl, rfl, hn⟩
  | none =>
      dsimp only
      cases hbelief : n.model.belief n.evidence v with
      | error fault => exact ⟨rfl, rfl, rfl, hn⟩
      | ok belief =>
          refine ⟨rfl, rfl, rfl, ?_⟩
          intro u other hother
          dsimp only at hother ⊢
          rw [Arrival.get?_put] at hother
          split at hother
          next heq =>
            cases hother
            exact heq ▸ hbelief
          next hne => exact hn u other hother

end ExactNetwork

namespace ReplicaNetwork

/-- What questions leave alone. -/
def shell (n : ReplicaNetwork α) : ReplicaNetwork α :=
  { n with backend := none, activated := false, queries := [] }

/-- A loaded network whose answers come from a model under some evidence. -/
def Answers (n : ReplicaNetwork α) (model : TableNetwork α) (evidence : Evidence) : Prop :=
  ∃ backend, n.backend = some backend ∧ backend.model = model ∧ backend.evidence = evidence ∧
    backend.Fresh

/-- A question about a variable fails when the evidence or the belief does. -/
def Fails (model : TableNetwork α) (evidence : Evidence) (v : Nat) (cause : SolverFault) : Prop :=
  model.partition evidence = .error cause ∨ model.belief evidence v = .error cause

/-- The right answers to a question about the truth of a node. -/
def Predicts (n : ReplicaNetwork α) (model : TableNetwork α) (evidence : Evidence) (node : Nat) :
    Except NetworkFault α → Prop
  | .ok p => ∃ belief, model.belief evidence (n.variableOf 0 node) = .ok belief ∧
      p = belief.getD 1 0
  | .error fault => n.nodeCount ≤ node ∨
      ∃ cause, fault = .solver cause ∧ Fails model evidence (n.variableOf 0 node) cause

/-- The right answers to a question about the states of a parameter. -/
def Estimates (n : ReplicaNetwork α) (model : TableNetwork α) (evidence : Evidence) (dist : Nat) :
    Except NetworkFault (List α) → Prop
  | .ok belief => model.belief evidence dist = .ok belief
  | .error fault => n.offset ≤ dist ∨
      ∃ cause, fault = .solver cause ∧ Fails model evidence dist cause

variable {n : ReplicaNetwork α} {model : TableNetwork α} {evidence : Evidence}

theorem Answers.of_backend {backend : ExactNetwork α} (hbackend : n.backend = some backend)
    (hfresh : backend.Fresh) : n.Answers backend.model backend.evidence :=
  ⟨backend, hbackend, rfl, rfl, hfresh⟩

theorem Answers.unique {other : TableNetwork α} {bound : Evidence}
    (hn : n.Answers model evidence) (hother : n.Answers other bound) :
    other = model ∧ bound = evidence := by
  obtain ⟨backend, hbackend, rfl, rfl, _⟩ := hn
  obtain ⟨same, hsame, rfl, rfl, _⟩ := hother
  cases hbackend.symm.trans hsame
  exact ⟨rfl, rfl⟩

theorem activate_ok (hn : n.Answers model evidence) {active : ReplicaNetwork α}
    (hactive : n.activate = .ok active) :
    active.Answers model evidence ∧ active.shell = n.shell := by
  unfold activate at hactive
  split at hactive
  · cases hactive
    exact ⟨hn, rfl⟩
  · obtain ⟨backend, hbackend, hactive⟩ := bind_eq_ok_iff.mp hactive
    cases hpropagate : backend.propagate with
    | error cause =>
        rw [hpropagate] at hactive
        cases hactive
    | ok =>
        rw [hpropagate] at hactive
        cases hactive
        exact ⟨hn, rfl⟩

theorem loaded_of_answers (hn : n.Answers model evidence) :
    ∃ backend, n.loaded = .ok backend ∧ n.backend = some backend ∧ backend.model = model ∧
      backend.evidence = evidence ∧ backend.Fresh := by
  obtain ⟨backend, hbackend, hrest⟩ := hn
  refine ⟨backend, ?_, hbackend, hrest⟩
  unfold loaded
  rw [hbackend]

theorem activate_error (hn : n.Answers model evidence) {fault : NetworkFault}
    (hfault : n.activate = .error fault) :
    ∃ cause, fault = .solver cause ∧ model.partition evidence = .error cause := by
  obtain ⟨backend, hloaded, _, rfl, rfl, _⟩ := loaded_of_answers hn
  unfold activate at hfault
  split at hfault
  · cases hfault
  · rw [hloaded] at hfault
    cases hpartition : backend.model.partition backend.evidence with
    | ok total =>
        have hpropagate : backend.propagate = .ok () := by
          unfold ExactNetwork.propagate
          rw [hpartition]
          rfl
        simp only [bind, Except.bind, hpropagate] at hfault
        cases hfault
    | error cause =>
        have hpropagate : backend.propagate = .error cause := by
          unfold ExactNetwork.propagate
          rw [hpartition]
          rfl
        simp only [bind, Except.bind, hpropagate] at hfault
        cases hfault
        exact ⟨cause, rfl, rfl⟩

/-- The solver of a network with known answers is asked for a belief and keeps answering so. -/
theorem queried_of_answers (hn : n.Answers model evidence) (v : Nat) :
    ∃ backend next, n.loaded = .ok backend ∧
      backend.queryStates v = (model.belief evidence v, next) ∧
      next.model = model ∧ next.evidence = evidence ∧ next.Fresh := by
  obtain ⟨backend, hloaded, _, rfl, rfl, hfresh⟩ := loaded_of_answers hn
  obtain ⟨hanswer, hnext⟩ := ExactNetwork.queryStates_spec hfresh v
  exact ⟨backend, _, hloaded, Prod.ext hanswer rfl, hnext⟩

/-- A prediction is the belief in the second state of the node, and changes no later answer. -/
theorem predict_spec (hn : n.Answers model evidence) (node : Nat) :
    n.Predicts model evidence node (n.predict node).1 ∧
      (n.predict node).2.Answers model evidence ∧ (n.predict node).2.shell = n.shell := by
  unfold predict checkNode
  by_cases hrange : n.nodeCount ≤ node
  · rw [if_pos hrange]
    exact ⟨Or.inl hrange, hn, rfl⟩
  rw [if_neg hrange]
  cases hactive : n.activate with
  | error fault =>
      obtain ⟨cause, rfl, hpartition⟩ := activate_error hn hactive
      exact ⟨Or.inr ⟨cause, rfl, Or.inl hpartition⟩, hn, rfl⟩
  | ok active =>
      obtain ⟨hanswers, hshell⟩ := activate_ok hn hactive
      -- Where a node is found depends on the shell, which activation leaves alone.
      have hvariable : active.variableOf 0 node = n.variableOf 0 node :=
        congrArg (fun m => m.variableOf 0 node) hshell
      obtain ⟨backend, next, hloaded, hquery, hnext⟩ :=
        queried_of_answers hanswers (n.variableOf 0 node)
      simp only [hloaded, hvariable, ExactNetwork.queryTruth, hquery]
      cases hbelief : model.belief evidence (n.variableOf 0 node) with
      | error cause =>
          exact ⟨Or.inr ⟨cause, rfl, Or.inr hbelief⟩, ⟨next, rfl, hnext⟩, hshell⟩
      | ok belief => exact ⟨⟨belief, hbelief, rfl⟩, ⟨next, rfl, hnext⟩, hshell⟩

/-- An estimate is the belief in the states of the parameter, and changes no later answer. -/
theorem posterior_spec (hn : n.Answers model evidence) (dist : Nat) :
    n.Estimates model evidence dist (n.posterior dist).1 ∧
      (n.posterior dist).2.Answers model evidence ∧ (n.posterior dist).2.shell = n.shell := by
  unfold posterior
  by_cases hrange : n.offset ≤ dist
  · rw [if_pos hrange]
    exact ⟨Or.inl hrange, hn, rfl⟩
  rw [if_neg hrange]
  cases hactive : n.activate with
  | error fault =>
      obtain ⟨cause, rfl, hpartition⟩ := activate_error hn hactive
      exact ⟨Or.inr ⟨cause, rfl, Or.inl hpartition⟩, hn, rfl⟩
  | ok active =>
      obtain ⟨hanswers, hshell⟩ := activate_ok hn hactive
      obtain ⟨backend, next, hloaded, hquery, hnext⟩ := queried_of_answers hanswers dist
      simp only [hloaded, hquery]
      cases hbelief : model.belief evidence dist with
      | error cause =>
          exact ⟨Or.inr ⟨cause, rfl, Or.inr hbelief⟩, ⟨next, rfl, hnext⟩, hshell⟩
      | ok belief => exact ⟨hbelief, ⟨next, rfl, hnext⟩, hshell⟩

/-! ## Binding -/

omit [Scalar α] in
theorem observe_eq {backend : ExactNetwork α} (hloaded : n.backend = some backend)
    (hactivated : n.activated = false) {node time : Nat} (hnode : node < n.nodeCount)
    (htime : time ≤ n.repetitions) (value : Bool) :
    n.observe node time value =
      match backend.observe (n.variableOf time node) value with
      | .ok next => .ok { n with backend := some next }
      | .error cause => .error (.solver cause) := by
  unfold observe checkNode loaded
  rw [if_neg (Nat.not_le.mpr hnode), hloaded]
  simp only [bind, Except.bind, if_neg (Nat.not_lt.mpr htime), hactivated]
  rfl

omit [Scalar α] in
theorem observe_ok {backend : ExactNetwork α} (hloaded : n.backend = some backend)
    {node time : Nat} {value : Bool} {next : ReplicaNetwork α}
    (hnext : n.observe node time value = .ok next) :
    ∃ bound, backend.observe (n.variableOf time node) value = .ok bound ∧
      next = { n with backend := some bound } := by
  unfold observe at hnext
  obtain ⟨_, hnode, hnext⟩ := bind_eq_ok_iff.mp hnext
  split at hnext
  · cases hnext
  split at hnext
  · cases hnext
  unfold loaded at hnext
  rw [hloaded] at hnext
  simp only [bind, Except.bind] at hnext
  cases hobserve : backend.observe (n.variableOf time node) value with
  | error cause =>
      rw [hobserve] at hnext
      cases hnext
  | ok bound =>
      rw [hobserve] at hnext
      cases hnext
      exact ⟨bound, rfl, rfl⟩

end ReplicaNetwork

namespace ExactNetwork

/-- Bind a batch to the nodes of one replica, which starts at some variable. -/
def bind? (n : ExactNetwork α) (first : Nat) (batch : Batch) : Option (ExactNetwork α) :=
  batch.foldlM (fun n entry => (n.observe (first + entry.1) entry.2).toOption) n

theorem observe_fresh {n next : ExactNetwork α} {v : Nat} {value : Bool}
    (hnext : n.observe v value = .ok next) :
    next.model = n.model ∧ next.evidence = Arrival.put n.evidence v value.toNat ∧ next.Fresh := by
  unfold observe at hnext
  obtain ⟨card, _, hnext⟩ := bind_eq_ok_iff.mp hnext
  split at hnext
  · cases hnext
  · cases hnext
    refine ⟨rfl, rfl, ?_⟩
    intro u belief hbelief
    cases hbelief

theorem bind?_fresh {n bound : ExactNetwork α} (hn : n.Fresh) {first : Nat} {batch : Batch}
    (hbound : n.bind? first batch = some bound) : bound.Fresh := by
  unfold bind? at hbound
  induction batch generalizing n with
  | nil =>
      cases hbound
      exact hn
  | cons entry batch ih =>
      rw [List.foldlM_cons] at hbound
      obtain ⟨next, hnext, hrest⟩ := Option.bind_eq_some_iff.mp hbound
      cases hobserve : n.observe (first + entry.1) entry.2 with
      | error cause => simp [hobserve, Except.toOption] at hnext
      | ok observed =>
          simp only [hobserve, Except.toOption, Option.some.injEq] at hnext
          subst hnext
          exact ih (observe_fresh hobserve).2.2 hrest

end ExactNetwork

namespace ReplicaNetwork

variable {n : ReplicaNetwork α}

omit [Scalar α] in
theorem bindBatch_ok {backend : ExactNetwork α} (hloaded : n.backend = some backend)
    {batch : Batch} {time : Nat} {next : ReplicaNetwork α}
    (hnext : n.bindBatch batch time = .ok next) :
    ∃ bound, backend.bind? (n.variableOf time 0) batch = some bound ∧
      next = { n with backend := some bound } := by
  unfold bindBatch at hnext
  induction batch generalizing n backend with
  | nil =>
      cases hnext
      refine ⟨backend, rfl, ?_⟩
      rw [← hloaded]
  | cons entry batch ih =>
      obtain ⟨first, hfirst, hrest⟩ := foldlM_cons_eq_ok_iff.mp hnext
      cases hobserve : n.observe entry.1 time entry.2 with
      | error cause => simp [hobserve, Except.mapError] at hfirst
      | ok observed =>
          simp only [hobserve, Except.mapError, Except.ok.injEq] at hfirst
          subst hfirst
          obtain ⟨bound, hbound, rfl⟩ := observe_ok hloaded hobserve
          obtain ⟨last, hlast, rfl⟩ := ih rfl hrest
          refine ⟨last, ?_, rfl⟩
          unfold ExactNetwork.bind?
          rw [List.foldlM_cons]
          have hvariable : n.variableOf time 0 + entry.1 = n.variableOf time entry.1 := by
            simp [variableOf]
          simp only [hvariable, hbound, Except.toOption]
          exact hlast

omit [Scalar α] in
/-- Batches of binary nodes can be bound to a network that has not been asked. -/
theorem bindBatch_bound {backend : ExactNetwork α} (hloaded : n.backend = some backend)
    (hactivated : n.activated = false) {time : Nat} (htime : time ≤ n.repetitions) {batch : Batch}
    (hbatch : ∀ observed ∈ batch, observed.1 < n.nodeCount ∧
      backend.model.cardOf (n.variableOf time observed.1) = .ok 2) :
    ∃ bound, n.bindBatch batch time = .ok { n with backend := some bound } ∧
      bound.model = backend.model ∧
      bound.evidence = Arrival.putAll backend.evidence
        (batch.map (fun observed => (n.variableOf time observed.1, observed.2.toNat))) := by
  unfold bindBatch
  induction batch generalizing n backend with
  | nil =>
      refine ⟨backend, ?_, rfl, rfl⟩
      rw [← hloaded]
      rfl
  | cons observed batch ih =>
      rw [List.forall_mem_cons] at hbatch
      obtain ⟨⟨hnode, hcard⟩, hrest⟩ := hbatch
      have hbinary : ¬ 2 ≤ observed.2.toNat := Nat.not_le.mpr (Bool.toNat_lt _)
      set next : ExactNetwork α := { backend with
        evidence := Arrival.put backend.evidence (n.variableOf time observed.1) observed.2.toNat
        beliefs := [] }
      have hobserve : backend.observe (n.variableOf time observed.1) observed.2 = .ok next :=
        bind_eq_ok_iff.mpr ⟨2, hcard, if_neg hbinary⟩
      have hfirst := observe_eq hloaded hactivated hnode htime observed.2
      rw [hobserve] at hfirst
      obtain ⟨bound, hbound, hmodel, hevidence⟩ :=
        @ih { n with backend := some next } next rfl hactivated htime hrest
      refine ⟨bound, ?_, hmodel, hevidence⟩
      rw [List.foldlM_cons, hfirst]
      exact hbound

end ReplicaNetwork

/-! ## Creating -/

variable [Numeral α]

/-- The network that the text of a factor graph reads back to. -/
def FactorGraph.readBack (f : FactorGraph α) (label : String) (options : SolverOptions α) :
    Except SolverFault (ExactNetwork α) := do
  ExactNetwork.ofFactors label options (← Factor.parseAll label f.text)

/-- The text of a factor graph, in the file with the label, reads back to its factors. -/
def FactorGraph.Lossless (f : FactorGraph α) (label : String) : Prop :=
  Factor.parseAll label f.text = .ok f.factors

theorem FactorGraph.Lossless.readBack_eq {f : FactorGraph α} {label : String}
    (hf : f.Lossless label) (options : SolverOptions α) :
    f.readBack label options = ExactNetwork.ofFactors label options f.factors := by
  unfold FactorGraph.readBack
  rw [hf]
  rfl

/-- For a compiled graph, reading back can be computed. -/
theorem FactorGraph.lossless_of_reads {g : CausalGraph α} {repetitions : Nat} {bayesian : Bool}
    {limit : Nat} {label : String}
    (hreads : ∀ f ∈ (compile g repetitions bayesian limit).toOption,
      (Factor.parseAll label f.text).toOption = some f.factors)
    {f : FactorGraph α} (hf : compile g repetitions bayesian limit = .ok f) : f.Lossless label :=
  eq_ok_of_toOption (hreads f (by rw [hf]; rfl))

theorem FactorGraph.readBack_fresh {f : FactorGraph α} {label : String}
    {options : SolverOptions α} {backend : ExactNetwork α}
    (hbackend : f.readBack label options = .ok backend) :
    backend.evidence = [] ∧ backend.Fresh := by
  obtain ⟨factors, _, hfactors⟩ := bind_eq_ok_iff.mp hbackend
  obtain ⟨model, _, hmodel⟩ := bind_eq_ok_iff.mp hfactors
  cases hmodel
  refine ⟨rfl, ?_⟩
  intro v belief hbelief
  cases hbelief

namespace ReplicaNetwork

/-- A network that has just been loaded. -/
def ofCompiled (name path : String) (nodeCount repetitions : Nat) (layout : VariableLayout)
    (backend : ExactNetwork α) : ReplicaNetwork α :=
  { name, path, nodeCount, offset := layout.distCount, shift := layout.shift, repetitions
    backend := some backend, activated := false, queries := [] }

/-- What comes of creating a network for a graph: a compiler fault, a file that cannot be written,
or what the text of the compiled graph reads back to. -/
inductive CreationOf (name path : String) (g : CausalGraph α) (repetitions : Nat) (bayesian : Bool)
    (limit : Nat) (options : SolverOptions α) : Except NetworkFault (ReplicaNetwork α) → Prop
  | uncompiled {cause : CompileFault}
      (hcompile : FactorGraph.compile g repetitions bayesian limit = .error cause) :
      CreationOf name path g repetitions bayesian limit options (.error (.compile cause))
  | unwritten {compiled : FactorGraph α}
      (hcompile : FactorGraph.compile g repetitions bayesian limit = .ok compiled) :
      CreationOf name path g repetitions bayesian limit options
        (.error (.compile (.unwritable path)))
  | unread {compiled : FactorGraph α} {cause : SolverFault}
      (hcompile : FactorGraph.compile g repetitions bayesian limit = .ok compiled)
      (hread : compiled.readBack path options = .error cause) :
      CreationOf name path g repetitions bayesian limit options (.error (.solver cause))
  | loaded {compiled : FactorGraph α} {backend : ExactNetwork α}
      (hcompile : FactorGraph.compile g repetitions bayesian limit = .ok compiled)
      (hread : compiled.readBack path options = .ok backend) :
      CreationOf name path g repetitions bayesian limit options
        (.ok (ofCompiled name path g.nodeCount repetitions compiled.layout backend))

theorem load_written {tree written : FileTree} {path : String} {compiled : FactorGraph α}
    (hwrite : tree.write? path compiled.text = some written) (options : SolverOptions α) :
    ExactNetwork.load written path options = compiled.readBack path options := by
  unfold ExactNetwork.load ExactNetwork.contentOf FactorGraph.readBack
  rw [FileTree.read?_of_write? hwrite]
  simp only [bind, Except.bind]

theorem create_spec (tree : FileTree) (directory name : String) (g : CausalGraph α)
    (repetitions : Nat) (bayesian : Bool) (limit : Nat) (options : SolverOptions α) :
    CreationOf name (joinPath directory (name ++ ".fg")) g repetitions bayesian limit options
      (create tree directory name g repetitions bayesian limit options).1 := by
  unfold create
  cases hcompile : FactorGraph.compile g repetitions bayesian limit with
  | error cause => exact .uncompiled hcompile
  | ok compiled =>
      dsimp only
      unfold FactorGraph.write
      cases hwrite : tree.write? (joinPath directory (name ++ ".fg")) compiled.text with
      | none => exact .unwritten hcompile
      | some written =>
          dsimp only
          rw [load_written hwrite]
          cases hread : compiled.readBack (joinPath directory (name ++ ".fg")) options with
          | error cause => exact .unread hcompile hread
          | ok backend => exact .loaded hcompile hread

theorem create_loaded {tree written : FileTree} {directory name : String} {g : CausalGraph α}
    {repetitions : Nat} {bayesian : Bool} {limit : Nat} {options : SolverOptions α}
    {compiled : FactorGraph α} {backend : ExactNetwork α}
    (hcompile : FactorGraph.compile g repetitions bayesian limit = .ok compiled)
    (hwrite : tree.write? (joinPath directory (name ++ ".fg")) compiled.text = some written)
    (hread : compiled.readBack (joinPath directory (name ++ ".fg")) options = .ok backend) :
    create tree directory name g repetitions bayesian limit options =
      (.ok (ofCompiled name (joinPath directory (name ++ ".fg")) g.nodeCount repetitions
        compiled.layout backend), written) := by
  unfold create FactorGraph.write
  rw [hcompile]
  dsimp only
  rw [hwrite]
  dsimp only
  rw [load_written hwrite, hread]
  rfl

end ReplicaNetwork

namespace LearnerContext

def fileOf (c : LearnerContext α) (name : String) : String :=
  joinPath c.directory (name ++ ".fg")

/-- A learner gives up, or its network is created. -/
theorem createNetwork_spec (c : LearnerContext α) (w : Workspace) (name : String)
    (g : CausalGraph α) (repetitions : Nat) (bayesian : Bool) :
    (c.createNetwork w name g repetitions bayesian).1 = .error .cancelled ∨
      ∃ result, (c.createNetwork w name g repetitions bayesian).1 = result.mapError .network ∧
        ReplicaNetwork.CreationOf name (c.fileOf name) g repetitions bayesian c.clauseLimit
          c.options result := by
  unfold createNetwork
  cases hcheck : checkCancelled (α := α) w with
  | mk answer next =>
      cases answer with
      -- Cancellation is the only fault that is not one of the network.
      | error fault =>
          left
          unfold checkCancelled at hcheck
          split at hcheck <;> simp_all
      | ok _ =>
          right
          dsimp only
          set files := if c.dumpArtifacts then g.writeListing next.files c.directory
            else next.files
          have hcreated := ReplicaNetwork.create_spec files c.directory name g repetitions
            bayesian c.clauseLimit c.options
          cases hcreate : ReplicaNetwork.create files c.directory name g repetitions bayesian
              c.clauseLimit c.options with
          | mk result tree =>
              rw [hcreate] at hcreated
              refine ⟨result, ?_, hcreated⟩
              cases result <;> rfl

/-- A network is created when nothing is given up and its file can be written and read back. -/
theorem createNetwork_written {c : LearnerContext α} {w : Workspace} {name : String}
    {g : CausalGraph α} {repetitions : Nat} {bayesian : Bool} {compiled : FactorGraph α}
    {backend : ExactNetwork α} {written : FileTree} (hcancelled : w.cancelled = .never)
    (hdump : c.dumpArtifacts = false)
    (hcompile : FactorGraph.compile g repetitions bayesian c.clauseLimit = .ok compiled)
    (hwrite : w.files.write? (c.fileOf name) compiled.text = some written)
    (hread : compiled.readBack (c.fileOf name) c.options = .ok backend) :
    c.createNetwork w name g repetitions bayesian =
      (.ok (.ofCompiled name (c.fileOf name) g.nodeCount repetitions compiled.layout backend),
        { w with files := written }) := by
  unfold createNetwork checkCancelled
  rw [hcancelled]
  dsimp only
  rw [hdump, if_neg Bool.false_ne_true, ReplicaNetwork.create_loaded hcompile hwrite hread,
    ← hcancelled]
  rfl

theorem createNetwork_loaded {c : LearnerContext α} {w : Workspace} {name : String}
    {g : CausalGraph α} {repetitions : Nat} {bayesian : Bool} {compiled : FactorGraph α}
    {backend : ExactNetwork α} {written : FileTree} (hcancelled : w.cancelled = .never)
    (hdump : c.dumpArtifacts = false)
    (hcompile : FactorGraph.compile g repetitions bayesian c.clauseLimit = .ok compiled)
    (hwrite : w.files.write? (c.fileOf name) compiled.text = some written)
    (hread : compiled.readBack (c.fileOf name) c.options = .ok backend) :
    (c.createNetwork w name g repetitions bayesian).1 = .ok
      (.ofCompiled name (c.fileOf name) g.nodeCount repetitions compiled.layout backend) :=
  congrArg Prod.fst (createNetwork_written hcancelled hdump hcompile hwrite hread)

theorem createNetwork_ok {c : LearnerContext α} {w : Workspace} {name : String}
    {g : CausalGraph α} {repetitions : Nat} {bayesian : Bool} {n : ReplicaNetwork α}
    (hn : (c.createNetwork w name g repetitions bayesian).1 = .ok n) :
    ∃ compiled backend, FactorGraph.compile g repetitions bayesian c.clauseLimit = .ok compiled ∧
      compiled.readBack (c.fileOf name) c.options = .ok backend ∧
      n = .ofCompiled name (c.fileOf name) g.nodeCount repetitions compiled.layout backend := by
  rcases c.createNetwork_spec w name g repetitions bayesian with
    hgiven | ⟨result, hresult, hcreation⟩
  · rw [hgiven] at hn
    cases hn
  · rw [hresult] at hn
    cases hcreation with
    | uncompiled _ | unwritten _ | unread _ _ => cases hn
    | loaded hcompile hread =>
        cases hn
        exact ⟨_, _, hcompile, hread, rfl⟩

end LearnerContext

/-! ## Calls -/

omit [Scalar α] [Numeral α] in
theorem LearnerContext.recordQuery_eq {c other : LearnerContext α}
    (hc : c = { other with queried := c.queried }) (id : Nat) (node : String) :
    c.recordQuery id node = { other with queried := (c.recordQuery id node).queried } := by
  unfold recordQuery
  split
  · exact hc
  · rw [hc]

inductive LearnerCall where
  /-- Append the observation of some records. -/
  | append (records : List (String × Bool))
  | query (node : String)
  | posterior (dist : Nat)

/-- The batches that calls append, each in a workspace as it happens to be. -/
def CausalGraph.appended (g : CausalGraph α) (calls : List (LearnerCall × Workspace)) :
    List Batch :=
  calls.filterMap (fun entry => match entry.1 with
    | .append records => some (g.batchOf (.ofRecords records))
    | .query _ | .posterior _ => none)

omit [Scalar α] [Numeral α] in
theorem CausalGraph.appended_cons (g : CausalGraph α) (entry : LearnerCall × Workspace)
    (calls : List (LearnerCall × Workspace)) :
    g.appended (entry :: calls) = g.appended [entry] ++ g.appended calls :=
  List.filterMap_append (l := [entry])

omit [Scalar α] [Numeral α] in
/-- What every call keeps, with the batch that it appends, is kept by a run of calls. -/
theorem CausalGraph.kept_along {L : Type} {g : CausalGraph α} {kept : List Batch → L → Prop}
    {perform : L → Workspace → LearnerCall → L}
    (hstep : ∀ history l, kept history l → ∀ w call,
      kept (history ++ g.appended [(call, w)]) (perform l w call))
    {history : List Batch} {l : L} (hl : kept history l)
    (calls : List (LearnerCall × Workspace)) :
    kept (history ++ g.appended calls)
      (calls.foldl (fun l entry => perform l entry.2 entry.1) l) := by
  induction calls generalizing l history with
  | nil => exact (List.append_nil history).symm ▸ hl
  | cons entry calls ih =>
      have hrest := ih (hstep history l hl entry.2 entry.1)
      rw [List.append_assoc, ← appended_cons] at hrest
      exact hrest

omit [Scalar α] [Numeral α] in
theorem ReplicaNetwork.ask_cases {β L : Type}
    (question : ReplicaNetwork α → Outcome NetworkFault β (ReplicaNetwork α))
    (keep : L → ReplicaNetwork α → L)
    (refreshed : Outcome (LearnerFault α) (ReplicaNetwork α) (L × Workspace)) :
    (∃ fault, refreshed.1 = .error fault ∧
      ask question keep refreshed = (.error fault, refreshed.2)) ∨
    ∃ n, refreshed.1 = .ok n ∧ ask question keep refreshed =
      ((question n).1.mapError .network, keep refreshed.2.1 (question n).2, refreshed.2.2) := by
  obtain ⟨result, learner, w⟩ := refreshed
  cases result with
  | error fault => exact Or.inl ⟨fault, rfl, rfl⟩
  | ok n => exact Or.inr ⟨n, rfl, rfl⟩

end DerivationBelief

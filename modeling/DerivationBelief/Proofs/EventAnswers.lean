import DerivationBelief.Proofs.CompiledAnswers
import DerivationBelief.Proofs.NetworkAnswers
import Mathlib.Tactic

/-!
# Networks that answer given an event

A network that was created for a graph without loss, and to which some observations were bound, has
the factors of the compiled graph and evidence that says what the observations say.  Its answers are
therefore probabilities of the graph given this event.  A question fails only when the event has
probability zero or when a table is too large for the limit that the network was created with.
-/

namespace DerivationBelief

open CausalGraph

theorem FactorGraph.Means.readBack_holds [Numeral ℚ] {f : FactorGraph ℚ} {g : CausalGraph ℚ}
    {bayesian : Bool} {repetitions : Nat} (hf : f.Means g bayesian repetitions) {label : String}
    (hlossless : f.Lossless label) {options : SolverOptions ℚ} {backend : ExactNetwork ℚ}
    (hread : f.readBack label options = .ok backend) :
    backend.model.Holds (g.stateCount bayesian) f.factors ∧
      backend.model.limit = options.maxTableEntries := by
  rw [hlossless.readBack_eq] at hread
  obtain ⟨model, hmodel, hloaded⟩ := bind_eq_ok_iff.mp hread
  cases hloaded
  exact TableNetwork.ofFactors_holds hf.consistent hmodel

namespace ReplicaNetwork

/-! ## Networks and events -/

/-- A network answers from the factors of a compiled graph, under evidence that says an event. -/
structure ReportsWith (n : ReplicaNetwork ℚ) (g : CausalGraph ℚ) (bayesian : Bool)
    (repetitions : Nat) (event : World → Prop) (bound : Nat) (f : FactorGraph ℚ)
    (model : TableNetwork ℚ) (evidence : Evidence) : Prop where
  means : f.Means g bayesian repetitions
  model_holds : model.Holds (g.stateCount bayesian) f.factors
  limit_eq : model.limit = bound
  observing : f.Observing g bayesian repetitions evidence event
  answers : n.Answers model evidence
  nodeCount_eq : n.nodeCount = g.nodeCount
  offset_eq : n.offset = g.distCount
  variableOf_eq : ∀ node, n.variableOf 0 node = f.layout.nodeVar 0 node

def Reports (n : ReplicaNetwork ℚ) (g : CausalGraph ℚ) (bayesian : Bool) (repetitions : Nat)
    (event : World → Prop) (bound : Nat) : Prop :=
  ∃ f model evidence, n.ReportsWith g bayesian repetitions event bound f model evidence

variable {n : ReplicaNetwork ℚ} {g : CausalGraph ℚ} {bayesian : Bool} {repetitions : Nat}
  {event : World → Prop} {bound : Nat}

/-- Questions change nothing that a network reports. -/
theorem Reports.asked (hn : n.Reports g bayesian repetitions event bound) {next : ReplicaNetwork ℚ}
    (hnext : ∀ model evidence, n.Answers model evidence →
      next.Answers model evidence ∧ next.shell = n.shell) :
    next.Reports g bayesian repetitions event bound := by
  obtain ⟨f, model, evidence, hreports⟩ := hn
  obtain ⟨hanswers, hshell⟩ := hnext model evidence hreports.answers
  have hvariable : ∀ node, next.variableOf 0 node = n.variableOf 0 node :=
    fun node => congrArg (fun m => m.variableOf 0 node) hshell
  refine ⟨f, model, evidence, ?_⟩
  constructor
  case means => exact hreports.means
  case model_holds => exact hreports.model_holds
  case limit_eq => exact hreports.limit_eq
  case observing => exact hreports.observing
  case answers => exact hanswers
  case nodeCount_eq =>
    exact (congrArg ReplicaNetwork.nodeCount hshell :).trans hreports.nodeCount_eq
  case offset_eq => exact (congrArg ReplicaNetwork.offset hshell :).trans hreports.offset_eq
  case variableOf_eq => exact fun node => (hvariable node).trans (hreports.variableOf_eq node)

/-- What a question under an event comes to: its answer when the event has a positive probability,
and otherwise a contradiction, or a table too large for the bound. -/
inductive Reported (bound : Nat) (weight : ℚ) {β : Type} (right : β) : Except NetworkFault β → Prop
  | answered (hpositive : 0 < weight) : Reported bound weight right (.ok right)
  | inconsistent (hzero : weight = 0) :
      Reported bound weight right (.error (.solver .inconsistentEvidence))
  | tooLarge {size : Nat} (hlarge : Oversized size bound) :
      Reported bound weight right (.error (.solver (.tableTooLarge size bound)))

/-- A share of a positive total tells as much as the weight itself. -/
theorem Reported.of_share {β : Type} {weight total : ℚ} (htotal : 0 < total) {right : β}
    {answer : Except NetworkFault β} (hanswer : Reported bound (weight / total) right answer) :
    Reported bound weight right answer := by
  cases hanswer with
  | answered hpositive => exact .answered ((div_pos_iff_of_pos_right htotal).mp hpositive)
  | inconsistent hzero =>
      exact .inconsistent ((div_eq_zero_iff.mp hzero).resolve_right htotal.ne')
  | tooLarge hlarge => exact .tooLarge hlarge

theorem reported_of_fault {β γ : Type} {weight : ℚ} (hweight : 0 ≤ weight) (right : β)
    {answer : γ → Prop} {cause : SolverFault}
    (hcause : AnswersWith bound weight answer (.error cause)) :
    Reported bound weight right (.error (.solver cause)) := by
  cases cause with
  | inconsistentEvidence => exact .inconsistent (le_antisymm hcause hweight)
  | tableTooLarge size limit =>
      obtain ⟨rfl, hlarge⟩ := hcause
      exact .tooLarge hlarge
  | unreadable _ => exact hcause.elim
  | malformed _ _ _ => exact hcause.elim
  | variableOutOfRange _ _ => exact hcause.elim
  | factorOutOfRange _ _ => exact hcause.elim

section Event

variable [DecidablePred event]

/-- The node holds with its probability given the event. -/
theorem Reports.predict (hn : n.Reports g bayesian repetitions event bound) (hg : g.Proper)
    {node : Nat} (hnode : node < g.nodeCount) :
    Reported bound (g.probability bayesian repetitions event)
      (g.probability bayesian repetitions (fun w => w.node 0 node = true ∧ event w) /
        g.probability bayesian repetitions event) (n.predict node).1 := by
  obtain ⟨f, model, evidence, hreports⟩ := hn
  have hweight : 0 ≤ g.probability bayesian repetitions event := probability_nonneg hg.dists event
  have hbelief := hreports.means.belief_node hg hreports.observing hreports.model_holds hnode
  have hpartition := hreports.means.partition_event hg hreports.observing hreports.model_holds
  have hpredict := (predict_spec hreports.answers node).1
  rw [hreports.limit_eq] at hbelief hpartition
  cases hanswer : (n.predict node).1 with
  | ok p =>
      rw [hanswer] at hpredict
      obtain ⟨belief, hvalue, rfl⟩ := hpredict
      rw [hreports.variableOf_eq] at hvalue
      rw [hvalue] at hbelief
      obtain ⟨hpositive, hexact⟩ := hbelief
      rw [hexact]
      exact .answered hpositive
  | error fault =>
      rw [hanswer] at hpredict
      rcases hpredict with hrange | ⟨cause, rfl, hfails⟩
      · rw [hreports.nodeCount_eq] at hrange
        exact absurd hnode (Nat.not_lt.mpr hrange)
      · rcases hfails with hfault | hfault
        · rw [hfault] at hpartition
          exact reported_of_fault hweight _ hpartition
        · rw [hreports.variableOf_eq] at hfault
          rw [hfault] at hbelief
          exact reported_of_fault hweight _ hbelief

/-- What a network answers about a distribution depends on its factors and its evidence, and on
where its nodes start. -/
theorem reported_posterior (hg : g.Proper) {f : FactorGraph ℚ} {model : TableNetwork ℚ}
    {evidence : Evidence} (hmeans : f.Means g bayesian repetitions)
    (hmodel : model.Holds (g.stateCount bayesian) f.factors)
    (hobserving : f.Observing g bayesian repetitions evidence event)
    (hanswers : n.Answers model evidence) (hoffset : n.offset = g.distCount) {dist : Nat}
    (hdist : dist < g.distCount) :
    Reported model.limit (g.probability bayesian repetitions event)
      (g.drawsGiven bayesian repetitions event dist) (n.posterior dist).1 := by
  have hweight : 0 ≤ g.probability bayesian repetitions event := probability_nonneg hg.dists event
  have hbelief := hmeans.belief_draw hg hobserving hmodel hdist
  have hpartition := hmeans.partition_event hg hobserving hmodel
  have hposterior := (posterior_spec hanswers dist).1
  cases hanswer : (n.posterior dist).1 with
  | ok shares =>
      rw [hanswer] at hposterior
      have hvalue : model.belief evidence dist = .ok shares := hposterior
      rw [hvalue] at hbelief
      obtain ⟨hpositive, rfl⟩ := hbelief
      exact .answered hpositive
  | error fault =>
      rw [hanswer] at hposterior
      rcases hposterior with hrange | ⟨cause, rfl, hfails⟩
      · rw [hoffset] at hrange
        exact absurd hdist (Nat.not_lt.mpr hrange)
      · rcases hfails with hfault | hfault
        · rw [hfault] at hpartition
          exact reported_of_fault hweight _ hpartition
        · rw [hfault] at hbelief
          exact reported_of_fault hweight _ hbelief

/-- The distribution has drawn a state with its probability given the event. -/
theorem Reports.posterior (hn : n.Reports g bayesian repetitions event bound) (hg : g.Proper)
    {dist : Nat} (hdist : dist < g.distCount) :
    Reported bound (g.probability bayesian repetitions event)
      (g.drawsGiven bayesian repetitions event dist) (n.posterior dist).1 := by
  obtain ⟨f, model, evidence, hreports⟩ := hn
  rw [← hreports.limit_eq]
  exact reported_posterior hg hreports.means hreports.model_holds hreports.observing
    hreports.answers hreports.offset_eq hdist

/-- A network that was not active becomes so unless the event has probability zero. -/
theorem Reports.activate (hn : n.Reports g bayesian repetitions event bound) (hg : g.Proper)
    (hactivated : n.activated = false) :
    Reported bound (g.probability bayesian repetitions event) { n with activated := true }
      n.activate := by
  obtain ⟨f, model, evidence, hreports⟩ := hn
  have hpartition := hreports.means.partition_event hg hreports.observing hreports.model_holds
  rw [hreports.limit_eq] at hpartition
  have hweight : 0 ≤ g.probability bayesian repetitions event := probability_nonneg hg.dists event
  cases hanswer : n.activate with
  | ok active =>
      obtain ⟨backend, hloaded, _, rfl, rfl, _⟩ := loaded_of_answers hreports.answers
      unfold ReplicaNetwork.activate at hanswer
      rw [if_neg (by simp [hactivated]), hloaded] at hanswer
      simp only [bind, Except.bind, ExactNetwork.propagate] at hanswer
      cases hvalue : backend.model.partition backend.evidence with
      | ok total =>
          rw [hvalue] at hanswer hpartition
          cases hanswer
          exact .answered hpartition
      | error cause =>
          rw [hvalue] at hanswer
          cases hanswer
  | error fault =>
      obtain ⟨cause, rfl, hfault⟩ := activate_error hreports.answers hanswer
      rw [hfault] at hpartition
      exact reported_of_fault hweight _ hpartition

end Event

/-! ## Learners -/

def LimitOutside (limit : Nat) : Prop :=
  limit < 2 ∨ FactorGraph.maxClauseLimit < limit

instance (limit : Nat) : Decidable (LimitOutside limit) :=
  inferInstanceAs (Decidable (limit < 2 ∨ FactorGraph.maxClauseLimit < limit))

/-- A clause limit out of range, a file that cannot be written, or a table too large for the
bound. -/
inductive Obstacle (limit bound : Nat) : NetworkFault → Prop
  | clauseLimit (houtside : LimitOutside limit) :
      Obstacle limit bound (.compile (.clauseLimit limit))
  | unwritable (path : String) : Obstacle limit bound (.compile (.unwritable path))
  | tooLarge {size : Nat} (hlarge : Oversized size bound) :
      Obstacle limit bound (.solver (.tableTooLarge size bound))

/-- What a question to a learner comes to, which may be obstructed or cancelled.  Only with a clause
limit in range is there a network that could be asked. -/
inductive Responds (limit bound : Nat) (weight : ℚ) {β : Type} (right : β) :
    Except (LearnerFault ℚ) β → Prop
  | answered (hinside : ¬ LimitOutside limit) (hpositive : 0 < weight) :
      Responds limit bound weight right (.ok right)
  | inconsistent (hinside : ¬ LimitOutside limit) (hzero : weight = 0) :
      Responds limit bound weight right (.error (.network (.solver .inconsistentEvidence)))
  | obstructed {cause : NetworkFault} (hcause : Obstacle limit bound cause) :
      Responds limit bound weight right (.error (.network cause))
  | cancelled : Responds limit bound weight right (.error .cancelled)

theorem Responds.eq_of_ok {β : Type} {limit : Nat} {weight : ℚ} {right answer : β}
    (hanswer : Responds limit bound weight right (.ok answer)) : answer = right := by
  cases hanswer
  rfl

/-- Why a question fails does not depend on what the answer would be. -/
theorem Responds.of_fault {β γ : Type} {limit : Nat} {weight : ℚ} {right : β} (other : γ)
    {fault : LearnerFault ℚ}
    (hfault : Responds limit bound weight right (.error fault : Except (LearnerFault ℚ) β)) :
    Responds limit bound weight other (.error fault) := by
  cases hfault with
  | inconsistent hinside hzero => exact .inconsistent hinside hzero
  | obstructed hcause => exact .obstructed hcause
  | cancelled => exact .cancelled

theorem Reported.responds {β : Type} {weight : ℚ} {right : β} {answer : Except NetworkFault β}
    (hanswer : Reported bound weight right answer) {limit : Nat} (hinside : ¬ LimitOutside limit) :
    Responds limit bound weight right (answer.mapError .network) := by
  cases hanswer with
  | answered hpositive => exact .answered hinside hpositive
  | inconsistent hzero => exact .inconsistent hinside hzero
  | tooLarge hlarge => exact .obstructed (.tooLarge hlarge)

/-- Work was given up, a table was too large, or a file could not be written or read. -/
def Interrupted {β : Type} : Except (LearnerFault ℚ) β → Prop
  | .error .cancelled => True
  | .error (.network (.solver (.tableTooLarge _ _))) => True
  | .error (.network (.solver (.unreadable _))) => True
  | .error (.network (.compile (.unwritable _))) => True
  | _ => False

/-- With a clause limit in range, a question that is not interrupted tells whether the event can
happen. -/
theorem Responds.of_inside {β : Type} {limit : Nat} {weight : ℚ} {right : β}
    {answer : Except (LearnerFault ℚ) β} (hanswer : Responds limit bound weight right answer)
    (hended : ¬ Interrupted answer) (hinside : ¬ LimitOutside limit) :
    answer = .ok right ∧ 0 < weight ∨
      answer = .error (.network (.solver .inconsistentEvidence)) ∧ weight = 0 := by
  cases hanswer with
  | answered _ hpositive => exact .inl ⟨rfl, hpositive⟩
  | inconsistent _ hzero => exact .inr ⟨rfl, hzero⟩
  | cancelled => exact absurd trivial hended
  | obstructed hcause =>
      cases hcause with
      | clauseLimit houtside => exact absurd houtside hinside
      | unwritable _ | tooLarge _ => exact absurd trivial hended

theorem Responds.answers_iff {β : Type} {limit : Nat} {weight : ℚ} {right : β}
    {answer : Except (LearnerFault ℚ) β} (hanswer : Responds limit bound weight right answer)
    (hended : ¬ Interrupted answer) :
    (∃ p, answer = .ok p) ↔ ¬ LimitOutside limit ∧ 0 < weight := by
  constructor
  · rintro ⟨p, rfl⟩
    cases hanswer with
    | answered hinside hpositive => exact ⟨hinside, hpositive⟩
  · rintro ⟨hinside, hpositive⟩
    rcases hanswer.of_inside hended hinside with ⟨hanswered, _⟩ | ⟨_, hzero⟩
    · exact ⟨right, hanswered⟩
    · exact absurd hzero hpositive.ne'

theorem Responds.inconsistent_iff {β : Type} {limit : Nat} {weight : ℚ} {right : β}
    {answer : Except (LearnerFault ℚ) β} (hanswer : Responds limit bound weight right answer)
    (hended : ¬ Interrupted answer) :
    answer = .error (.network (.solver .inconsistentEvidence)) ↔
      ¬ LimitOutside limit ∧ weight = 0 := by
  constructor
  · rintro rfl
    cases hanswer with
    | inconsistent hinside hzero => exact ⟨hinside, hzero⟩
    | obstructed hcause => cases hcause
  · rintro ⟨hinside, hzero⟩
    rcases hanswer.of_inside hended hinside with ⟨_, hpositive⟩ | ⟨hcontradicted, _⟩
    · exact absurd hzero hpositive.ne'
    · exact hcontradicted

/-! ## Creating and binding -/

section Creating

variable [Numeral ℚ] {name path : String} {limit : Nat} {options : SolverOptions ℚ}

theorem CreationOf.limit_inside {created : ReplicaNetwork ℚ}
    (hcreation : CreationOf name path g repetitions bayesian limit options (.ok created)) :
    ¬ LimitOutside limit := by
  cases hcreation with
  | loaded hcompile _ => exact FactorGraph.limit_of_compiled hcompile

/-- Nothing but a clause limit out of range, a file that cannot be written and a table beyond the
limit prevents a network from being created without loss. -/
theorem CreationOf.obstacle {cause : NetworkFault}
    (hcreation : CreationOf name path g repetitions bayesian limit options (.error cause))
    (hg : g.Proper)
    (hlossless : ∀ f, FactorGraph.compile g repetitions bayesian limit = .ok f → f.Lossless path) :
    Obstacle limit options.maxTableEntries cause := by
  cases hcreation with
  | uncompiled hcompile =>
      rcases FactorGraph.compile_cases hg repetitions bayesian limit with
        ⟨hfault, hlimit⟩ | ⟨f, hf, _⟩
      · cases hfault.symm.trans hcompile
        exact .clauseLimit hlimit
      · cases hf.symm.trans hcompile
  | unwritten _ => exact .unwritable path
  | @unread compiled _ hcompile hread =>
      have hloads := (FactorGraph.means_of_compiled hg hcompile).loads path options
      rw [(hlossless compiled hcompile).readBack_eq] at hread
      rw [hread] at hloads
      obtain ⟨size, rfl, hlarge⟩ := hloads
      exact .tooLarge hlarge

/-- Observations of one replica can be bound to a network that was created without loss.  The last
value of a node counts. -/
theorem CreationOf.bindBatch {created : ReplicaNetwork ℚ}
    (hcreation : CreationOf name path g repetitions bayesian limit options (.ok created))
    (hg : g.Proper)
    (hlossless : ∀ f, FactorGraph.compile g repetitions bayesian limit = .ok f → f.Lossless path)
    {observed : Batch} (hobserved : ∀ observation ∈ observed, observation.1 < g.nodeCount)
    {time : Nat} (htime : time ≤ repetitions) :
    ∃ bound, created.bindBatch observed time = .ok bound ∧ bound.activated = false ∧
      bound.Reports g bayesian repetitions
        (fun w => ∀ value ∈ Arrival.putAll [] observed, w.node time value.1 = value.2)
        options.maxTableEntries := by
  cases hcreation with
  | @loaded compiled backend hcompile hread =>
      have hmeans : compiled.Means g bayesian repetitions :=
        FactorGraph.means_of_compiled hg hcompile
      obtain ⟨hholds, hlimit⟩ := hmeans.readBack_holds (hlossless compiled hcompile) hread
      have hbinary : ∀ observation ∈ observed, observation.1 < g.nodeCount ∧
          backend.model.cardOf (compiled.layout.nodeVar time observation.1) = .ok 2 := by
        intro observation hmem
        have hlt := hobserved observation hmem
        have hcard := hholds.cardOf (stateCount_pos hg.dists) (hmeans.nodeVar_mem htime hlt)
        rw [VariableLayout.nodeVar_states hmeans.describes] at hcard
        exact ⟨hlt, hcard⟩
      have hvalues : g.Observes (Arrival.putAll [] observed) := by
        constructor
        case distinct =>
          have hempty : (([] : Batch).map Prod.fst).Nodup := List.nodup_nil
          exact Arrival.keys_putAll_nodup hempty observed
        case node_lt =>
          intro value hvalue
          rcases Arrival.mem_putAll hvalue with hnone | hmem
          · cases hnone
          · exact hobserved value hmem
      obtain ⟨hnone, hfresh⟩ := FactorGraph.readBack_fresh hread
      set created := ofCompiled name path g.nodeCount repetitions compiled.layout backend
      obtain ⟨bound, hbound, hmodel, hevidence⟩ :=
        bindBatch_bound (n := created) (rfl : created.backend = some backend) rfl htime hbinary
      obtain ⟨last, hlast, hsame⟩ := bindBatch_ok (n := created) rfl hbound
      cases hsame
      have hkept := ExactNetwork.bind?_fresh hfresh hlast
      have hall : bound.evidence =
          compiled.layout.boundBatch time (Arrival.putAll [] observed) := by
        have hinjective : Function.Injective (compiled.layout.nodeVar time) :=
          fun _ _ heq => Nat.add_left_cancel heq
        rw [hevidence, hnone]
        exact Arrival.putAll_map hinjective Bool.toNat [] observed
      refine ⟨_, hbound, rfl, compiled, backend.model,
        compiled.layout.boundBatch time (Arrival.putAll [] observed), ?_⟩
      constructor
      case means => exact hmeans
      case model_holds => exact hholds
      case limit_eq => exact hlimit
      case observing => exact hmeans.observing_batch hvalues htime
      case answers => exact ⟨bound, rfl, hmodel, hall, hkept⟩
      case nodeCount_eq => rfl
      case offset_eq => exact hmeans.describes.distCount_eq
      case variableOf_eq => exact fun _ => rfl

end Creating

end ReplicaNetwork

end DerivationBelief

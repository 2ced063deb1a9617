import DerivationBelief.Proofs.NetworkAnswers
import Mathlib.Tactic

/-!
# Answers that can be reproduced

A network may be built again from the same graph and the same observations.  The workspace decides
whether that succeeds, but the network is the same one, and questions asked of it in the meantime
change none of its answers.  So two networks that were built alike agree on whatever they answer.
-/

namespace DerivationBelief

variable {α : Type} [Scalar α]

namespace ReplicaNetwork

variable {n m : ReplicaNetwork α} {model : TableNetwork α} {evidence : Evidence}

/-! ## Networks of the same answers -/

/-- The networks have the same model, evidence and first node. -/
def SameAnswers (n m : ReplicaNetwork α) : Prop :=
  ∃ model evidence, n.Answers model evidence ∧ m.Answers model evidence ∧ n.offset = m.offset

theorem Answers.same (hn : n.Answers model evidence) : n.SameAnswers n :=
  ⟨model, evidence, hn, hn, rfl⟩

theorem SameAnswers.symm (hsame : n.SameAnswers m) : m.SameAnswers n := by
  obtain ⟨model, evidence, hn, hm, hoffset⟩ := hsame
  exact ⟨model, evidence, hm, hn, hoffset.symm⟩

theorem SameAnswers.trans {k : ReplicaNetwork α} (hfirst : n.SameAnswers m)
    (hsecond : m.SameAnswers k) : n.SameAnswers k := by
  obtain ⟨model, evidence, hn, hm, hoffset⟩ := hfirst
  obtain ⟨other, bound, hagain, hk, hnext⟩ := hsecond
  obtain ⟨rfl, rfl⟩ := hm.unique hagain
  exact ⟨_, _, hn, hk, hoffset.trans hnext⟩

/-- A question leaves a network's answers alone, and networks of the same answers agree on it
wherever both answer. -/
structure Neutral {β : Type}
    (question : ReplicaNetwork α → Outcome NetworkFault β (ReplicaNetwork α)) : Prop where
  keeps : ∀ n model evidence, n.Answers model evidence →
    (question n).2.Answers model evidence ∧ (question n).2.shell = n.shell
  agrees : ∀ {n m}, n.SameAnswers m → ∀ {p q},
    (question n).1 = .ok p → (question m).1 = .ok q → p = q

theorem predict_neutral (node : Nat) : Neutral (fun n : ReplicaNetwork α => n.predict node) where
  keeps n _ _ hn := (predict_spec hn node).2
  agrees := by
    rintro n m ⟨model, evidence, hn, hm, hoffset⟩ p q hp hq
    have hfirst := (predict_spec hn node).1
    have hsecond := (predict_spec hm node).1
    rw [hp] at hfirst
    rw [hq] at hsecond
    obtain ⟨belief, hbelief, rfl⟩ := hfirst
    obtain ⟨other, hother, rfl⟩ := hsecond
    -- In replica zero a node is found behind the offset, whatever the shift is.
    have hvariable : n.variableOf 0 node = m.variableOf 0 node := by
      simp [variableOf, hoffset]
    rw [hvariable] at hbelief
    cases hbelief.symm.trans hother
    rfl

theorem posterior_neutral (dist : Nat) :
    Neutral (fun n : ReplicaNetwork α => n.posterior dist) where
  keeps n _ _ hn := (posterior_spec hn dist).2
  agrees := by
    rintro n m ⟨model, evidence, hn, hm, _⟩ p q hp hq
    have hfirst := (posterior_spec hn dist).1
    have hsecond := (posterior_spec hm dist).1
    rw [hp] at hfirst
    rw [hq] at hsecond
    exact Except.ok.inj (hfirst.symm.trans hsecond)

variable {β L : Type} {question : ReplicaNetwork α → Outcome NetworkFault β (ReplicaNetwork α)}
  {keep : L → ReplicaNetwork α → L}

theorem Neutral.same (hquestion : Neutral question) (hsame : n.SameAnswers m) :
    (question n).2.SameAnswers m := by
  obtain ⟨model, evidence, hn, hm, hoffset⟩ := hsame
  obtain ⟨hkept, hshell⟩ := hquestion.keeps n model evidence hn
  exact ⟨model, evidence, hkept, hm, (congrArg ReplicaNetwork.offset hshell :).trans hoffset⟩

omit [Scalar α] in
theorem ask_ok {refreshed : Outcome (LearnerFault α) (ReplicaNetwork α) (L × Workspace)}
    {answer : β} (hanswer : (ask question keep refreshed).1 = .ok answer) :
    ∃ n, refreshed.1 = .ok n ∧ (question n).1 = .ok answer := by
  rcases ask_cases question keep refreshed with ⟨fault, _, hasked⟩ | ⟨n, hn, hasked⟩
  · rw [hasked] at hanswer
    cases hanswer
  · rw [hasked] at hanswer
    refine ⟨n, hn, ?_⟩
    cases hresult : (question n).1 with
    | error cause =>
        rw [hresult] at hanswer
        cases hanswer
    | ok p =>
        rw [hresult] at hanswer
        cases hanswer
        rfl

omit [Scalar α] in
/-- Once a learner has refreshed, the network that it holds is asked. -/
theorem ask_of_ok {refreshed : Outcome (LearnerFault α) (ReplicaNetwork α) (L × Workspace)}
    {n : ReplicaNetwork α} (hn : refreshed.1 = .ok n) :
    (ask question keep refreshed).1 = (question n).1.mapError .network := by
  rcases ask_cases question keep refreshed with ⟨fault, hfault, _⟩ | ⟨m, hm, hasked⟩
  · cases hn.symm.trans hfault
  · cases hn.symm.trans hm
    rw [hasked]

omit [Scalar α] in
/-- What a learner keeps when it refreshes and takes up a network, it keeps when it is asked. -/
theorem ask_keeps (right : ReplicaNetwork α → Prop) (kept : L → Prop)
    {refreshed : Outcome (LearnerFault α) (ReplicaNetwork α) (L × Workspace)}
    (hquestion : ∀ n, right n → right (question n).2) (hrefreshed : kept refreshed.2.1)
    (hok : ∀ n, refreshed.1 = .ok n → right n)
    (hkeep : ∀ n, right n → kept (keep refreshed.2.1 n)) :
    kept (ask question keep refreshed).2.1 := by
  rcases ask_cases question keep refreshed with ⟨_, _, hasked⟩ | ⟨n, hn, hasked⟩
  · rw [hasked]
    exact hrefreshed
  · rw [hasked]
    exact hkeep _ (hquestion n (hok n hn))

/-- Learners whose networks have the same answers agree on a question. -/
theorem Neutral.ask_agrees (hquestion : Neutral question)
    {refreshed again : Outcome (LearnerFault α) (ReplicaNetwork α) (L × Workspace)}
    (hsame : ∀ n m, refreshed.1 = .ok n → again.1 = .ok m → n.SameAnswers m) {p q : β}
    (hp : (ask question keep refreshed).1 = .ok p) (hq : (ask question keep again).1 = .ok q) :
    p = q := by
  obtain ⟨n, hn, hanswer⟩ := ask_ok hp
  obtain ⟨m, hm, hother⟩ := ask_ok hq
  exact hquestion.agrees (hsame n m hn hm) hanswer hother

/-! ## Building again -/

/-- Building comes to one network, if to any, whatever the workspace is. -/
structure Reproducible
    (build : Workspace → Outcome (LearnerFault α) (ReplicaNetwork α) Workspace) : Prop where
  ready : ∀ {w n}, (build w).1 = .ok n → ∃ backend, n.backend = some backend ∧ backend.Fresh
  unique : ∀ {w w' n m}, (build w).1 = .ok n → (build w').1 = .ok m → n = m

/-- The answers are those of a network that can be built. -/
def AnswersAsBuilt (build : Workspace → Outcome (LearnerFault α) (ReplicaNetwork α) Workspace)
    (n : ReplicaNetwork α) : Prop :=
  ∃ w m, (build w).1 = .ok m ∧ n.SameAnswers m

/-- What one of two ways to build comes to is what the other one does, if both succeed. -/
def BuildAlike (build again : Workspace → Outcome (LearnerFault α) (ReplicaNetwork α) Workspace) :
    Prop :=
  ∀ w w' n m, (build w).1 = .ok n → (again w').1 = .ok m → n = m

variable {build again : Workspace → Outcome (LearnerFault α) (ReplicaNetwork α) Workspace}

theorem Reproducible.alike (hbuild : Reproducible build) : BuildAlike build build :=
  fun _ _ _ _ hn hm => hbuild.unique hn hm

theorem Reproducible.asBuilt (hbuild : Reproducible build) {w : Workspace}
    (hn : (build w).1 = .ok n) : AnswersAsBuilt build n := by
  obtain ⟨backend, hbackend, hfresh⟩ := hbuild.ready hn
  exact ⟨w, n, hn, (Answers.of_backend hbackend hfresh).same⟩

theorem AnswersAsBuilt.same (halike : BuildAlike build again) (hn : AnswersAsBuilt build n)
    (hm : AnswersAsBuilt again m) : n.SameAnswers m := by
  obtain ⟨w, first, hfirst, hsame⟩ := hn
  obtain ⟨w', second, hsecond, hagain⟩ := hm
  cases halike w w' first second hfirst hsecond
  exact hsame.trans hagain.symm

theorem AnswersAsBuilt.asked (hn : AnswersAsBuilt build n) (hquestion : Neutral question) :
    AnswersAsBuilt build (question n).2 := by
  obtain ⟨w, m, hm, hsame⟩ := hn
  exact ⟨w, m, hm, hquestion.same hsame⟩

end ReplicaNetwork

open ReplicaNetwork

theorem FactorGraph.compile_distCount {g : CausalGraph α} {repetitions limit : Nat}
    {bayesian : Bool} {f : FactorGraph α}
    (hf : FactorGraph.compile g repetitions bayesian limit = .ok f) :
    f.layout.distCount = g.distCount := by
  unfold FactorGraph.compile at hf
  split at hf
  · cases hf
  · obtain ⟨emitted, _, hemitted⟩ := bind_eq_ok_iff.mp hf
    cases hemitted
    rfl

variable [Numeral α]

theorem LearnerContext.createNetwork_reproducible (c : LearnerContext α) (name : String)
    (g : CausalGraph α) (repetitions : Nat) (bayesian : Bool) :
    Reproducible (fun w => c.createNetwork w name g repetitions bayesian) where
  ready := by
    intro w n hn
    obtain ⟨compiled, backend, _, hread, rfl⟩ := createNetwork_ok hn
    exact ⟨backend, rfl, (FactorGraph.readBack_fresh hread).2⟩
  unique := by
    intro w w' n m hn hm
    obtain ⟨compiled, backend, hcompile, hread, rfl⟩ := createNetwork_ok hn
    obtain ⟨other, loaded, hother, hloaded, rfl⟩ := createNetwork_ok hm
    cases hcompile.symm.trans hother
    cases hread.symm.trans hloaded
    rfl

end DerivationBelief

import DerivationBelief.ProvenanceBuilder
import DerivationBelief.Proofs.Provenance
import DerivationBelief.Proofs.ProvenanceGraph
import DerivationBelief.Proofs.Pruning
import Mathlib.Tactic

/-!
# Builders under any sequence of calls

A clause takes its head out of the inputs when it is added, but nothing keeps the head from being
given as an input again afterwards.  So the inputs are the tuples that were given after the last
clause that derives them, and the graph of what is computed overlaps exactly when such a tuple heads
a retained clause.
-/

namespace DerivationBelief

inductive BuilderCall where
  | addRules (rules : List String)
  | addClauses (clauses : List GroundClause)
  | addInputs (tuples : List GroundTuple)
  | addOutputs (tuples : List GroundTuple)

namespace BuilderCall

/-- The call adds a clause that has the tuple as its head. -/
def Derives : BuilderCall → GroundTuple → Prop
  | .addClauses clauses, t => ∃ c ∈ clauses, c.head = t
  | _, _ => False

/-- The call gives the tuple as an input. -/
def Supplies : BuilderCall → GroundTuple → Prop
  | .addInputs tuples, t => t ∈ tuples
  | _, _ => False

/-- Some call gives the tuple as an input, and no later one derives it. -/
def SuppliedLast (calls : List BuilderCall) (t : GroundTuple) : Prop :=
  ∃ before call after, calls = before ++ call :: after ∧ call.Supplies t ∧
    ∀ later ∈ after, ¬ later.Derives t

theorem not_suppliedLast_nil (t : GroundTuple) : ¬ SuppliedLast [] t := by
  rintro ⟨before, call, after, hcalls, _⟩
  simp at hcalls

theorem suppliedLast_cons {call : BuilderCall} {calls : List BuilderCall} {t : GroundTuple} :
    SuppliedLast (call :: calls) t ↔
      (call.Supplies t ∧ ∀ later ∈ calls, ¬ later.Derives t) ∨ SuppliedLast calls t := by
  constructor
  · rintro ⟨before, supplying, after, hcalls, hsupplies, hafter⟩
    cases before with
    | nil =>
        obtain ⟨rfl, rfl⟩ := List.cons.inj hcalls
        exact Or.inl ⟨hsupplies, hafter⟩
    | cons first before =>
        obtain ⟨rfl, hrest⟩ := List.cons.inj hcalls
        exact Or.inr ⟨before, supplying, after, hrest, hsupplies, hafter⟩
  · rintro (⟨hsupplies, hafter⟩ | ⟨before, supplying, after, hcalls, hsupplies, hafter⟩)
    · exact ⟨[], call, calls, rfl, hsupplies, hafter⟩
    · exact ⟨call :: before, supplying, after, congrArg _ hcalls, hsupplies, hafter⟩

end BuilderCall

namespace ProvenanceBuilder

variable {b : ProvenanceBuilder} {t : GroundTuple}

def perform (b : ProvenanceBuilder) : BuilderCall → ProvenanceBuilder
  | .addRules rules => b.addRules rules
  | .addClauses clauses => b.addClauses clauses
  | .addInputs tuples => b.addInputs tuples
  | .addOutputs tuples => b.addOutputs tuples

def run (b : ProvenanceBuilder) (calls : List BuilderCall) : ProvenanceBuilder :=
  calls.foldl perform b

/-! ## Inputs -/

theorem mem_inputs_addClauses {clauses : List GroundClause} :
    t ∈ (b.addClauses clauses).inputs ↔ t ∈ b.inputs ∧ ∀ c ∈ clauses, c.head ≠ t := by
  induction clauses generalizing b with
  | nil => simp [addClauses]
  | cons c clauses ih =>
      have hfirst : t ∈ (b.addClause c).inputs ↔ t ∈ b.inputs ∧ t ≠ c.head := Arrival.mem_remove
      change t ∈ ((b.addClause c).addClauses clauses).inputs ↔ _
      rw [ih, hfirst, List.forall_mem_cons, and_assoc, @ne_comm _ t]

theorem mem_clauses_addClauses {clauses : List GroundClause} {c : GroundClause} :
    c ∈ (b.addClauses clauses).clauses ↔ c ∈ b.clauses ∨ c ∈ clauses := by
  induction clauses generalizing b with
  | nil => simp [addClauses]
  | cons first clauses ih =>
      have hfirst : c ∈ (b.addClause first).clauses ↔ c ∈ b.clauses ∨ c = first :=
        Arrival.mem_insert
      change c ∈ ((b.addClause first).addClauses clauses).clauses ↔ _
      rw [ih, hfirst, List.mem_cons, or_assoc]

theorem mem_inputs_perform {call : BuilderCall} :
    t ∈ (b.perform call).inputs ↔ (t ∈ b.inputs ∧ ¬ call.Derives t) ∨ call.Supplies t := by
  cases call with
  | addRules rules => simp [perform, addRules, BuilderCall.Derives, BuilderCall.Supplies]
  | addClauses clauses =>
      simp [perform, mem_inputs_addClauses, BuilderCall.Derives, BuilderCall.Supplies]
  | addInputs tuples => simp [perform, addInputs, BuilderCall.Derives, BuilderCall.Supplies]
  | addOutputs tuples => simp [perform, addOutputs, BuilderCall.Derives, BuilderCall.Supplies]

/-- The inputs after some calls: those that no call derives, and those that were given after the last
call that derives them. -/
theorem mem_inputs_run {calls : List BuilderCall} :
    t ∈ (b.run calls).inputs ↔
      (t ∈ b.inputs ∧ ∀ call ∈ calls, ¬ call.Derives t) ∨ BuilderCall.SuppliedLast calls t := by
  induction calls generalizing b with
  | nil => simp [run, BuilderCall.not_suppliedLast_nil]
  | cons call calls ih =>
      change t ∈ ((b.perform call).run calls).inputs ↔ _
      rw [ih, mem_inputs_perform, BuilderCall.suppliedLast_cons, List.forall_mem_cons]
      tauto

/-! ## What is computed is numbered -/

/-- Inputs and outputs are listed once. -/
structure Listed (b : ProvenanceBuilder) : Prop where
  inputs_nodup : b.inputs.Nodup
  outputs_nodup : b.outputs.Nodup

theorem new_listed (name : String) (prune augment : Bool) : (new name prune augment).Listed where
  inputs_nodup := List.nodup_nil
  outputs_nodup := List.nodup_nil

theorem Listed.addClauses (hb : b.Listed) (clauses : List GroundClause) :
    (b.addClauses clauses).Listed := by
  induction clauses generalizing b with
  | nil => exact hb
  | cons c clauses ih =>
      exact ih (b := b.addClause c) ⟨hb.inputs_nodup.filter _, hb.outputs_nodup⟩

theorem Listed.perform (hb : b.Listed) (call : BuilderCall) : (b.perform call).Listed := by
  cases call with
  | addRules rules => exact ⟨hb.inputs_nodup, hb.outputs_nodup⟩
  | addClauses clauses => exact hb.addClauses clauses
  | addInputs tuples => exact ⟨Arrival.insertAll_nodup hb.inputs_nodup tuples, hb.outputs_nodup⟩
  | addOutputs tuples => exact ⟨hb.inputs_nodup, Arrival.insertAll_nodup hb.outputs_nodup tuples⟩

theorem Listed.run (hb : b.Listed) (calls : List BuilderCall) : (b.run calls).Listed := by
  induction calls generalizing b with
  | nil => exact hb
  | cons call calls ih => exact ih (hb.perform call)

theorem Listed.provenanceFor_numbered (hb : b.Listed) (observed : List GroundTuple) :
    (b.provenanceFor observed).Numbered := by
  apply Provenance.ofParts_numbered
  · rw [List.nodup_append]
    refine ⟨hb.inputs_nodup.filter _, hb.outputs_nodup.filter _, ?_⟩
    rintro t hinput s houtput rfl
    have hapart := (List.mem_filter.mp houtput).2
    rw [Bool.and_eq_true, Bool.not_eq_true'] at hapart
    have hgiven : b.inputs.contains t = true :=
      List.contains_iff_mem.mpr (List.mem_filter.mp hinput).1
    rw [hapart.2] at hgiven
    cases hgiven
  · intro t ht
    rcases List.mem_append.mp ht with hinput | houtput
    · exact List.contains_iff_mem.mp (List.mem_filter.mp hinput).2
    · have hkept := (List.mem_filter.mp houtput).2
      rw [Bool.and_eq_true] at hkept
      exact List.contains_iff_mem.mp hkept.1

theorem mem_inputs_provenanceFor {observed : List GroundTuple} :
    t ∈ (b.provenanceFor observed).inputs ↔
      t ∈ b.inputs ∧ t ∈ ClauseIndex.mentioned (b.provenanceFor observed).clauses := by
  change t ∈ b.inputs.filter _ ↔ _
  rw [List.mem_filter]
  exact and_congr_right' List.contains_iff_mem

/-! ## Overlaps -/

/-- Whatever the calls were, a tuple of a computed provenance is both an input and derived exactly
when it heads a retained clause and was given as an input after the last call that derives it.  The
graph of the provenance is refused as overlapping exactly when there is such a tuple, and built
otherwise.  Identifiers carry numbers of 64 bits. -/
theorem overlapped_iff_suppliedLast (name : String) (prune augment : Bool)
    (calls : List BuilderCall) {α : Type} (clausePrior : GroundClause → Option (Distribution α))
    (inputPrior : GroundTuple → Option (Distribution α)) :
    ∃ p, ((new name prune augment).run calls).compute.provenance = .ok p ∧
      (∀ t, p.Derives t → (t ∈ p.inputs ↔ BuilderCall.SuppliedLast calls t)) ∧
      (p.tupleIds.length ≤ Text.word64 →
        ((∃ node, p.causalGraph clausePrior inputPrior = .error (.overlappedNode node)) ↔
          ∃ t, p.Derives t ∧ BuilderCall.SuppliedLast calls t) ∧
        ((∃ g, p.causalGraph clausePrior inputPrior = .ok g) ↔
          ∀ t, p.Derives t → ¬ BuilderCall.SuppliedLast calls t)) := by
  set b := (new name prune augment).run calls
  have hp := ((new_listed name prune augment).run calls).provenanceFor_numbered b.outputs
  have hinputs : ∀ t, (b.provenanceFor b.outputs).Derives t →
      (t ∈ (b.provenanceFor b.outputs).inputs ↔ BuilderCall.SuppliedLast calls t) := by
    intro t ht
    rw [mem_inputs_provenanceFor, mem_inputs_run]
    simp [ht.mem_mentioned, new]
  refine ⟨b.provenanceFor b.outputs, rfl, hinputs, ?_⟩
  intro hsize
  have hcases := hp.graphWith_cases hsize
    (PriorTable.ofIndependent ((b.provenanceFor b.outputs).annotated clausePrior inputPrior))
  unfold Provenance.causalGraph
  rcases hcases with ⟨hapart, _, hgraph⟩ | ⟨⟨t, hinput, hderives⟩, node, hgraph⟩
  · have hnone : ∀ t, (b.provenanceFor b.outputs).Derives t →
        ¬ BuilderCall.SuppliedLast calls t :=
      fun t ht hsupplied => hapart t ((hinputs t ht).mpr hsupplied) ht
    rw [hgraph]
    refine ⟨⟨?_, ?_⟩, ⟨fun _ => hnone, fun _ => ⟨_, rfl⟩⟩⟩
    · rintro ⟨node, hfault⟩
      cases hfault
    · rintro ⟨t, ht, hsupplied⟩
      exact absurd hsupplied (hnone t ht)
  · have hsupplied := (hinputs t hderives).mp hinput
    rw [hgraph]
    refine ⟨⟨fun _ => ⟨t, hderives, hsupplied⟩, fun _ => ⟨node, rfl⟩⟩, ⟨?_, ?_⟩⟩
    · rintro ⟨g, hok⟩
      cases hok
    · intro hnone
      exact absurd hsupplied (hnone t hderives)

/-! ## An input given too late -/

open ClausePruner (letter)

/-- The clause that derives `A` comes first, then `A` is given as an input. -/
def lateInput : List BuilderCall :=
  [.addClauses [.positive 0 (letter "A") [letter "B"]], .addInputs [letter "A"],
    .addOutputs [letter "A"]]

def lateProvenance : Provenance :=
  { name := "late"
    clauses := [.positive 0 (letter "A") [letter "B"]]
    inputs := [letter "A"]
    outputs := []
    hidden := [letter "B"]
    tupleIds := [(letter "A", .input 0), (letter "B", .hidden 0)]
    rules := [] }

theorem lateInput_provenance :
    ((new "late" false false).run lateInput).compute.provenance = .ok lateProvenance := by
  decide +kernel

theorem lateInput_overlapped_iff :
    lateProvenance.tupleIds.length ≤ Text.word64 ∧
      ((∃ node, lateProvenance.causalGraph (fun _ => (none : Option (Distribution ℚ)))
          (fun _ => none) = .error (.overlappedNode node)) ↔
        ∃ t, lateProvenance.Derives t ∧ BuilderCall.SuppliedLast lateInput t) := by
  have hsize : lateProvenance.tupleIds.length ≤ Text.word64 := by decide
  obtain ⟨p, hp, _, hgraph⟩ := overlapped_iff_suppliedLast "late" false false lateInput
    (fun _ => (none : Option (Distribution ℚ))) (fun _ => none)
  cases hp.symm.trans lateInput_provenance
  exact ⟨hsize, (hgraph hsize).1⟩

/-- The input `A` heads a retained clause, and the graph is refused. -/
theorem lateInput_overlapped :
    ((new "late" false false).run lateInput).compute.provenance = .ok lateProvenance ∧
      letter "A" ∈ lateProvenance.inputs ∧ lateProvenance.Derives (letter "A") ∧
      lateProvenance.causalGraph (fun _ => (none : Option (Distribution ℚ))) (fun _ => none) =
        .error (.overlappedNode "I0") :=
  ⟨lateInput_provenance, by decide, ⟨_, List.mem_cons_self, rfl⟩, rfl⟩

end ProvenanceBuilder

end DerivationBelief

import DerivationBelief.ProvenanceBuilder
import DerivationBelief.Proofs.Augmentation
import DerivationBelief.Proofs.BackwardClosure
import DerivationBelief.Proofs.RelevantClauses
import Mathlib.Data.List.Sort
import Mathlib.Tactic

/-!
# Pruning clauses without a cycle

When the clauses of a builder have no cycle, augmenting admits every clause, whatever the batches
were.  The walk back over numbered rules then marks the tuples that matter for the observed ones,
just as the plain walk over clauses does, and both keep the same clauses in the same order.
-/

namespace DerivationBelief

open Relation

variable {clauses : List GroundClause} {observed : List GroundTuple}

namespace ClauseIndex

/-- Without a cycle no rule is left out, however the batches are halved. -/
theorem mem_augment_of_acyclic (hacyclic : Acyclic (Supports clauses)) (dates : List Nat) {c : Nat}
    (hc : c < clauses.length) :
    c ∈ (ofClauses clauses).augment ((ofClauses clauses).forwardRules dates) := by
  have hadmitted := augment_admitted (ofClauses_wellFormed clauses)
    ((ofClauses clauses).forwardRules_acyclic dates)
  have hlt : c ∈ List.range (ofClauses clauses).rules.length := by simpa using hc
  by_contra hout
  apply hadmitted.maximal c hlt hout
  rw [← acyclic_feeds_iff]
  exact hacyclic.mono (fun _ _ => supports_of_feeds)

end ClauseIndex

/-- Pruning with augmentation keeps what the plain walk keeps, in the same order. -/
theorem activeClauses_eq_backwardClosure (hacyclic : Acyclic (Supports clauses))
    (inputs observed : List GroundTuple) :
    (ClausePruner.ofClauses clauses inputs).augment.activeClauses observed =
      backwardClosure clauses observed := by
  have hactive : (ClausePruner.ofClauses clauses inputs).augment.activeClauses observed =
      (ClauseIndex.ofClauses clauses).activeRules
        ((ClauseIndex.ofClauses clauses).augment ((ClauseIndex.ofClauses clauses).forwardRules
          ((ClauseIndex.ofClauses clauses).birthDates inputs))) observed := rfl
  rw [hactive]
  -- Both walks report numbers in ascending order, so the order of their queues does not matter.
  apply List.Pairwise.eq_of_mem_iff (ClauseIndex.activeRules_ascending _ _)
  · exact List.pairwise_lt_range.filter _
  · intro c
    have hall : ∀ c < clauses.length, c ∈ (ClauseIndex.ofClauses clauses).augment
        ((ClauseIndex.ofClauses clauses).forwardRules
          ((ClauseIndex.ofClauses clauses).birthDates inputs)) :=
      fun c hc => ClauseIndex.mem_augment_of_acyclic hacyclic _ hc
    rw [mem_backwardClosure, ClauseIndex.mem_activeRules_iff]
    simp only [reaches_iff_matters hall]
    constructor
    · exact fun hactive => hactive.2
    · rintro ⟨clause, hclause, hmatters⟩
      exact ⟨hall c (List.getElem?_eq_some_iff.mp hclause).1, clause, hclause, hmatters⟩

namespace ProvenanceBuilder

/-- Over clauses without a cycle, pruning with augmentation computes the provenance that is computed
without pruning. -/
theorem pruned_provenance_eq (b : ProvenanceBuilder) (observed : List GroundTuple)
    (hacyclic : Acyclic (Supports b.clauses)) :
    ∃ p, ({ b with prune := true, augment := true }.computeFor observed).provenance = .ok p ∧
      ({ b with prune := false }.computeFor observed).provenance = .ok p := by
  set pruning : ProvenanceBuilder := { b with prune := true, augment := true }
  set plain : ProvenanceBuilder := { b with prune := false }
  have hretained : pruning.retained observed = plain.retained observed :=
    activeClauses_eq_backwardClosure hacyclic b.inputs observed
  refine ⟨plain.provenanceFor observed, ?_, rfl⟩
  have hsame : pruning.provenanceFor observed = plain.provenanceFor observed := by
    unfold provenanceFor
    rw [hretained]
  rw [← hsame]
  rfl

/-! ## A chain of clauses -/

open ClausePruner (letter)

/-- The input `I` derives `A`, which derives `B`. -/
def chainBuilder : ProvenanceBuilder :=
  ((new "chain" true true).addInputs [letter "I"]).addClauses
    [.positive 0 (letter "A") [letter "I"], .positive 1 (letter "B") [letter "A"]]

theorem chainBuilder_acyclic : Acyclic (Supports chainBuilder.clauses) := by
  apply Acyclic.of_rank (fun t => if t = letter "I" then 0 else if t = letter "A" then 1 else 2)
  intro s t hstep
  obtain ⟨clause, hclause, hbody, rfl⟩ := hstep
  have hclauses : chainBuilder.clauses =
      [.positive 0 (letter "A") [letter "I"], .positive 1 (letter "B") [letter "A"]] := by
    decide
  rw [hclauses, List.mem_pair] at hclause
  rcases hclause with rfl | rfl
  · have hs : s = letter "I" := by
      simpa [GroundClause.positive, GroundClause.bodyTuples] using hbody
    subst s
    decide
  · have hs : s = letter "A" := by
      simpa [GroundClause.positive, GroundClause.bodyTuples] using hbody
    subst s
    decide

/-- Either way `A` keeps the clause that derives it, and not the one for `B`. -/
theorem chainBuilder_pruned_provenance_eq :
    ∃ p, ({ chainBuilder with prune := true, augment := true }.computeFor
        [letter "A"]).provenance = .ok p ∧
      ({ chainBuilder with prune := false }.computeFor [letter "A"]).provenance = .ok p ∧
      p.clauses = [.positive 0 (letter "A") [letter "I"]] := by
  obtain ⟨p, hpruned, hplain⟩ :=
    pruned_provenance_eq chainBuilder [letter "A"] chainBuilder_acyclic
  have hp : { chainBuilder with prune := false }.provenanceFor [letter "A"] = p :=
    Except.ok.inj hplain
  refine ⟨p, hpruned, hplain, ?_⟩
  rw [← hp]
  decide +kernel

end ProvenanceBuilder

end DerivationBelief

import DerivationBelief.Proofs.Pruning
import DerivationBelief.Proofs.RelevantClauses
import Mathlib.Tactic

/-!
# The search from both ends decides disjointness

The ancestors of a batch of clauses are the tuples that lead to one of its bodies over chosen
clauses, the descendants those that are reached from one of its heads.  The search grows both sides
in turns, the smaller one first, and looks for a common tuple only when it adds one.  Each side is
an exploration all the while, so no common tuple is missed in whichever order the sides grow, and
every step leaves less to explore, so the search ends by itself before its fuel does.

The chosen clauses have no cycle.  A single clause closes one exactly if the search finds a tuple on
both sides.
-/

namespace DerivationBelief

open Relation

variable {clauses : List GroundClause} {chosen batch : List Nat}

/-! ## Ancestors and descendants of a batch -/

/-- The least set of tuples with the bodies of the batch that has, with the head of a chosen clause,
its body. -/
inductive BatchAncestor (clauses : List GroundClause) (chosen batch : List Nat) :
    GroundTuple → Prop
  | body {c : Nat} {clause : GroundClause} {s : GroundTuple} (hc : c ∈ batch)
      (hclause : clauses[c]? = some clause) (hs : s ∈ clause.bodyTuples) :
      BatchAncestor clauses chosen batch s
  | back {c : Nat} {clause : GroundClause} {s : GroundTuple} (hc : c ∈ chosen)
      (hclause : clauses[c]? = some clause)
      (hhead : BatchAncestor clauses chosen batch clause.head) (hs : s ∈ clause.bodyTuples) :
      BatchAncestor clauses chosen batch s

/-- The least set of tuples with the heads of the batch that has, with some tuple of the body of a
chosen clause, its head. -/
inductive BatchDescendant (clauses : List GroundClause) (chosen batch : List Nat) :
    GroundTuple → Prop
  | head {c : Nat} {clause : GroundClause} (hc : c ∈ batch)
      (hclause : clauses[c]? = some clause) : BatchDescendant clauses chosen batch clause.head
  | ahead {c : Nat} {clause : GroundClause} {s : GroundTuple} (hc : c ∈ chosen)
      (hclause : clauses[c]? = some clause) (hs : s ∈ clause.bodyTuples)
      (hbody : BatchDescendant clauses chosen batch s) :
      BatchDescendant clauses chosen batch clause.head

theorem batchAncestor_iff {t : GroundTuple} :
    BatchAncestor clauses chosen batch t ↔
      ∃ c ∈ batch, ∃ clause, clauses[c]? = some clause ∧
        ∃ s ∈ clause.bodyTuples, ReflTransGen (Feeds clauses chosen) t s := by
  constructor
  · intro hancestor
    induction hancestor with
    | body hc hclause hs => exact ⟨_, hc, _, hclause, _, hs, ReflTransGen.refl⟩
    | back hc hclause _ hs ih =>
        obtain ⟨d, hd, start, hstart, u, hu, hchain⟩ := ih
        exact ⟨d, hd, start, hstart, u, hu, ReflTransGen.head ⟨_, hc, _, hclause, hs, rfl⟩ hchain⟩
  · rintro ⟨d, hd, start, hstart, u, hu, hchain⟩
    induction hchain using ReflTransGen.head_induction_on with
    | refl => exact BatchAncestor.body hd hstart hu
    | head hstep _ ih =>
        obtain ⟨c, hc, clause, hclause, hs, rfl⟩ := hstep
        exact BatchAncestor.back hc hclause ih hs

theorem batchDescendant_iff {t : GroundTuple} :
    BatchDescendant clauses chosen batch t ↔
      ∃ c ∈ batch, ∃ clause, clauses[c]? = some clause ∧
        ReflTransGen (Feeds clauses chosen) clause.head t := by
  constructor
  · intro hdescendant
    induction hdescendant with
    | head hc hclause => exact ⟨_, hc, _, hclause, ReflTransGen.refl⟩
    | ahead hc hclause hs _ ih =>
        obtain ⟨d, hd, start, hstart, hchain⟩ := ih
        exact ⟨d, hd, start, hstart, hchain.tail ⟨_, hc, _, hclause, hs, rfl⟩⟩
  · rintro ⟨d, hd, start, hstart, hchain⟩
    induction hchain with
    | refl => exact BatchDescendant.head hd hstart
    | tail _ hstep ih =>
        obtain ⟨c, hc, clause, hclause, hs, rfl⟩ := hstep
        exact BatchDescendant.ahead hc hclause hs ih

theorem feeds_append_iff {more : List Nat} {s t : GroundTuple} :
    Feeds clauses (chosen ++ more) s t ↔ Feeds clauses chosen s t ∨ Feeds clauses more s t := by
  simp only [Feeds, List.mem_append, or_and_right, exists_or]

/-! ## Tuples and their numbers -/

namespace ClauseIndex

theorem chain_idxOf {s t : GroundTuple}
    (hchain : ReflTransGen (DerivationBelief.Feeds clauses chosen) s t) :
    ReflTransGen ((ofClauses clauses).Feeds chosen) ((mentioned clauses).idxOf s)
      ((mentioned clauses).idxOf t) :=
  hchain.lift (fun u => (mentioned clauses).idxOf u) (fun _ _ => feeds_idxOf)

/-- A chain of numbers from the number of a tuple is one of tuples. -/
theorem chain_of_numbers {s : GroundTuple} {j : Nat} (hs : s ∈ mentioned clauses)
    (hchain : ReflTransGen ((ofClauses clauses).Feeds chosen) ((mentioned clauses).idxOf s) j) :
    ∃ t ∈ mentioned clauses, (mentioned clauses).idxOf t = j ∧
      ReflTransGen (DerivationBelief.Feeds clauses chosen) s t := by
  induction hchain with
  | refl => exact ⟨s, hs, rfl, ReflTransGen.refl⟩
  | tail _ hstep ih =>
      obtain ⟨t, ht, hidx, hchain⟩ := ih
      obtain ⟨u, v, hu, hv, huj, hvk, hfeeds⟩ := feeds_of_numbers hstep
      have hsame : u = t := (List.idxOf_inj hu).mp (huj.trans hidx.symm)
      subst hsame
      exact ⟨v, hv, hvk, hchain.tail hfeeds⟩

theorem batchMeets_ofClauses (hbatch : ∀ c ∈ batch, c < clauses.length) :
    (ofClauses clauses).BatchMeets chosen batch ↔
      ∃ t, BatchAncestor clauses chosen batch t ∧ BatchDescendant clauses chosen batch t := by
  simp only [batchAncestor_iff, batchDescendant_iff]
  constructor
  · rintro ⟨i, ⟨c, hc, b, hb, hback⟩, d, hd, hahead⟩
    have hlt : c < clauses.length := hbatch c hc
    have hstartLt : d < clauses.length := hbatch d hd
    have hclause : clauses[c]? = some clauses[c] := List.getElem?_eq_getElem hlt
    have hstart : clauses[d]? = some clauses[d] := List.getElem?_eq_getElem hstartLt
    obtain ⟨s, hs, rfl⟩ := (mem_body_ofClauses hclause).mp hb
    rw [head_ofClauses hstart] at hahead
    obtain ⟨t, ht, rfl, hreached⟩ := chain_of_numbers (head_mem_mentioned hstart) hahead
    obtain ⟨u, hu, hidx, hleads⟩ := chain_of_numbers ht hback
    have hsame : u = s := (List.idxOf_inj hu).mp hidx
    subst hsame
    exact ⟨t, ⟨c, hc, _, hclause, u, hs, hleads⟩, d, hd, _, hstart, hreached⟩
  · rintro ⟨t, ⟨c, hc, clause, hclause, s, hs, hleads⟩, d, hd, start, hstart, hreached⟩
    refine ⟨(mentioned clauses).idxOf t, ⟨c, hc, (mentioned clauses).idxOf s, ?_, ?_⟩, d, hd, ?_⟩
    · exact (mem_body_ofClauses hclause).mpr ⟨s, hs, rfl⟩
    · exact chain_idxOf hleads
    · rw [head_ofClauses hstart]
      exact chain_idxOf hreached

end ClauseIndex

/-! ## How the search ends -/

namespace ClauseIndex

variable {index : ClauseIndex} {accepted : List Nat}

/-- How the search for a batch ends: at once when a body of the batch is a head of it, and else when
the two sides meet or both have been explored. -/
def SearchEnds (index : ClauseIndex) (accepted batch : List Nat) (answer : Bool) : Prop :=
  let f := Frontiers.ofBatch index batch
  ((∃ t ∈ f.ancestors, t ∈ f.descendants) ∧ answer = false) ∨
    ((∀ t ∈ f.ancestors, t ∉ f.descendants) ∧ Frontiers.Ends index accepted f answer)

theorem keepsApart_searchEnds (hindex : index.WellFormed)
    (hbatch : ∀ c ∈ batch, c < index.rules.length) :
    index.SearchEnds accepted batch (index.keepsApart accepted batch) := by
  rcases index.keepsApart_cases accepted batch with hmeet | ⟨hapart, hanswer⟩
  · exact Or.inl hmeet
  · have hsearch := ofBatch_searching accepted hindex hbatch hapart
    rw [hanswer]
    exact Or.inr ⟨hapart, Frontiers.staysApart_ends hindex hsearch (ofBatch_work hsearch)⟩

/-- A single rule is kept apart exactly if it closes no cycle. -/
theorem keepsApart_singleton_iff (hindex : index.WellFormed)
    (hacyclic : Acyclic (index.Feeds accepted)) {c : Nat} (hc : c < index.rules.length) :
    index.keepsApart accepted [c] = true ↔ Acyclic (index.Feeds (accepted ++ [c])) := by
  rw [keepsApart_iff hindex (List.forall_mem_singleton.mpr hc)]
  constructor
  · exact acyclic_append hacyclic
  · intro hmore hmeets
    exact not_acyclic_of_meets hc hmeets hmore

end ClauseIndex

/-! ## The batches of a pruner -/

namespace ClausePruner

variable {inputs : List GroundTuple}

/-- Before and after augmenting, the search for a batch ends by itself.  It keeps the batch apart
exactly if no tuple is both an ancestor and a descendant of the batch over the chosen clauses, and a
single clause exactly if the chosen clauses stay without a cycle when it is added. -/
theorem search_decides_disjointness (clauses : List GroundClause) (inputs : List GroundTuple)
    (augmented : Bool) {batch : List Nat} (hbatch : ∀ c ∈ batch, c < clauses.length) :
    let p := ofClausesWith clauses inputs augmented
    p.index.SearchEnds p.chosen batch (p.keepsApart batch) ∧
      (p.keepsApart batch = true ↔
        ¬ ∃ t, BatchAncestor clauses p.chosenClauses batch t ∧
          BatchDescendant clauses p.chosenClauses batch t) ∧
      ∀ c, batch = [c] →
        (p.keepsApart batch = true ↔ Acyclic (Feeds clauses (p.chosenClauses ++ [c]))) := by
  intro p
  have hindex : p.index = ClauseIndex.ofClauses clauses := index_ofClausesWith augmented
  have hwell : p.index.WellFormed := hindex ▸ ClauseIndex.ofClauses_wellFormed clauses
  have hrules : ∀ c ∈ batch, c < p.index.rules.length := by
    rw [hindex, ClauseIndex.rules_length_ofClauses]
    exact hbatch
  refine ⟨ClauseIndex.keepsApart_searchEnds hwell hrules, ?_, ?_⟩
  · have hfeeds : Feeds clauses p.chosenClauses = Feeds clauses p.chosen := by
      funext s t
      exact propext (feeds_chosenClauses hindex)
    unfold keepsApart
    rw [ClauseIndex.keepsApart_iff hwell hrules, hindex, ClauseIndex.batchMeets_ofClauses hbatch]
    simp only [batchAncestor_iff, batchDescendant_iff, hfeeds]
  · rintro c rfl
    have hsplit : ∀ s t, Feeds clauses (p.chosenClauses ++ [c]) s t ↔
        Feeds clauses (p.chosen ++ [c]) s t := by
      intro s t
      rw [feeds_append_iff, feeds_append_iff, feeds_chosenClauses hindex]
    have hsame : Acyclic (Feeds clauses (p.chosenClauses ++ [c])) ↔
        Acyclic (Feeds clauses (p.chosen ++ [c])) :=
      ⟨fun h => h.mono (fun s t => (hsplit s t).mpr), fun h => h.mono (fun s t => (hsplit s t).mp)⟩
    have hacyclic : Acyclic (p.index.Feeds p.chosen) := by
      rw [hindex, ← ClauseIndex.acyclic_feeds_iff]
      exact chosen_acyclic clauses inputs augmented
    rw [hsame, ClauseIndex.acyclic_feeds_iff, ← hindex]
    exact ClauseIndex.keepsApart_singleton_iff hwell hacyclic (hrules c List.mem_cons_self)

/-- The first clause derives `A` from `B`, and a chosen one derives `B` from `A`. -/
theorem circular_search_decides :
    (∀ c ∈ [0], c < circularClauses.length) ∧
      (ofClausesWith circularClauses [letter "I"] true).keepsApart [0] = false ∧
      (∃ t, BatchAncestor circularClauses
          (ofClausesWith circularClauses [letter "I"] true).chosenClauses [0] t ∧
        BatchDescendant circularClauses
          (ofClausesWith circularClauses [letter "I"] true).chosenClauses [0] t) ∧
      ¬ Acyclic (Feeds circularClauses
        ((ofClausesWith circularClauses [letter "I"] true).chosenClauses ++ [0])) := by
  have hbatch : ∀ c ∈ [0], c < circularClauses.length := by decide
  obtain ⟨_, hmeet, hcycle⟩ :=
    search_decides_disjointness circularClauses [letter "I"] true hbatch
  have hanswer : (ofClausesWith circularClauses [letter "I"] true).keepsApart [0] = false := by
    decide
  refine ⟨hbatch, hanswer, ?_, ?_⟩
  · by_contra hnone
    exact absurd (hmeet.mpr hnone) (by rw [hanswer]; exact Bool.false_ne_true)
  · intro hacyclic
    exact absurd ((hcycle 0 rfl).mpr hacyclic) (by rw [hanswer]; exact Bool.false_ne_true)

end ClausePruner

end DerivationBelief

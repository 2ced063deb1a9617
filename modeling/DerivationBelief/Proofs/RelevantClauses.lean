import DerivationBelief.ClausePruner
import DerivationBelief.Proofs.BackwardClosure
import DerivationBelief.Proofs.Pruning
import DerivationBelief.Proofs.Relevance
import Mathlib.Tactic

/-!
# Exactly the relevant clauses

A chosen clause is relevant when its head leads to an observed tuple over chosen clauses.  The walk
over numbered rules and the walk over clauses keep different things in their queues, but both end
with the relevant clauses in ascending order: the one among the clauses that a pruner has chosen,
the other among all of them.  Whatever leads from a relevant clause to an observed tuple is relevant
itself, so the retained clauses alone connect it with one.
-/

namespace DerivationBelief

open Relation

variable {clauses : List GroundClause} {chosen retained : List Nat} {observed : List GroundTuple}

/-- A tuple leads to an observed tuple over chosen clauses. -/
def Reaches (clauses : List GroundClause) (chosen : List Nat) (observed : List GroundTuple)
    (s : GroundTuple) : Prop :=
  ∃ t ∈ observed, ReflTransGen (Feeds clauses chosen) s t

theorem Reaches.of_feeds {s t : GroundTuple} (ht : Reaches clauses chosen observed t)
    (hfeeds : Feeds clauses chosen s t) : Reaches clauses chosen observed s := by
  obtain ⟨u, hu, hchain⟩ := ht
  exact ⟨u, hu, ReflTransGen.head hfeeds hchain⟩

/-! ## The walk over numbered rules -/

namespace ClauseIndex

/-- A number that is reached from an observed one is that of a tuple that leads to an observed
tuple. -/
theorem reaches_of_chain {i j : Nat} (hi : i ∈ observed.filterMap (ofClauses clauses).number?)
    (hchain : ReflTransGen (fun t u => (ofClauses clauses).Feeds chosen u t) i j) :
    ∃ t ∈ mentioned clauses, (mentioned clauses).idxOf t = j ∧
      Reaches clauses chosen observed t := by
  induction hchain with
  | refl =>
      obtain ⟨t, ht, hnumber⟩ := List.mem_filterMap.mp hi
      obtain ⟨hmem, hidx⟩ := Arrival.position?_eq_some_iff.mp hnumber
      exact ⟨t, hmem, hidx.symm, t, ht, ReflTransGen.refl⟩
  | @tail j k _ hstep ih =>
      obtain ⟨t, ht, hidx, hreaches⟩ := ih
      obtain ⟨s, u, hs, hu, hsk, huj, hfeeds⟩ := feeds_of_numbers hstep
      have hsame : u = t := (List.idxOf_inj hu).mp (huj.trans hidx.symm)
      subst hsame
      exact ⟨s, hs, hsk, hreaches.of_feeds hfeeds⟩

theorem number_mem_coreachable {u : GroundTuple} (hu : u ∈ observed)
    (hmentioned : u ∈ mentioned clauses) :
    (mentioned clauses).idxOf u ∈ (ofClauses clauses).coreachable chosen observed := by
  have hnumber : (ofClauses clauses).number? u = some ((mentioned clauses).idxOf u) :=
    Arrival.position?_eq_some_iff.mpr ⟨hmentioned, rfl⟩
  have hstart : (mentioned clauses).idxOf u ∈
      [] ++ fresh [] (observed.filterMap (ofClauses clauses).number?) :=
    mem_append_fresh (List.mem_filterMap.mpr ⟨u, hu, hnumber⟩)
  exact (coreachable_exploration (ofClauses_wellFormed clauses) observed).started _ hstart

/-- The marked numbers are those of the tuples that lead to an observed tuple. -/
theorem idxOf_mem_coreachable {t : GroundTuple} (ht : t ∈ mentioned clauses) :
    (mentioned clauses).idxOf t ∈ (ofClauses clauses).coreachable chosen observed ↔
      Reaches clauses chosen observed t := by
  have hindex := ofClauses_wellFormed clauses
  constructor
  · intro hmarked
    obtain ⟨i, hi, hchain⟩ := (coreachable_exploration hindex observed).mem_iff.mp hmarked
    obtain ⟨s, hs, hidx, hreaches⟩ := reaches_of_chain (mem_of_mem_fresh hi) hchain
    have hsame : s = t := (List.idxOf_inj hs).mp hidx
    exact hsame ▸ hreaches
  · rintro ⟨u, hu, hchain⟩
    induction hchain using ReflTransGen.head_induction_on with
    | refl => exact number_mem_coreachable hu ht
    | @head s v hstep _ ih =>
        have hv : v ∈ mentioned clauses := by
          obtain ⟨c, _, clause, hclause, _, rfl⟩ := hstep
          exact head_mem_mentioned hclause
        exact coreachable_closed hindex (ih hv) (feeds_idxOf hstep)

theorem mem_activeRules_iff {c : Nat} :
    c ∈ (ofClauses clauses).activeRules chosen observed ↔
      c ∈ chosen ∧ ∃ clause, clauses[c]? = some clause ∧
        Reaches clauses chosen observed clause.head := by
  rw [mem_activeRules, rules_length_ofClauses]
  constructor
  · rintro ⟨hlt, hchosen, hmarked⟩
    have hclause : clauses[c]? = some clauses[c] := List.getElem?_eq_getElem hlt
    rw [head_ofClauses hclause, idxOf_mem_coreachable (head_mem_mentioned hclause)] at hmarked
    exact ⟨hchosen, clauses[c], hclause, hmarked⟩
  · rintro ⟨hchosen, clause, hclause, hreaches⟩
    refine ⟨(List.getElem?_eq_some_iff.mp hclause).1, hchosen, ?_⟩
    rw [head_ofClauses hclause, idxOf_mem_coreachable (head_mem_mentioned hclause)]
    exact hreaches

theorem activeRules_ascending (index : ClauseIndex) (chosen : List Nat) :
    (index.activeRules chosen observed).Pairwise (· < ·) := by
  unfold activeRules
  exact index.ruleNumbers_ascending _

end ClauseIndex

/-! ## The walk over clauses -/

theorem supports_of_feeds {s t : GroundTuple} (hfeeds : Feeds clauses chosen s t) :
    Supports clauses s t := by
  obtain ⟨c, _, clause, hclause, hbody, hhead⟩ := hfeeds
  exact ⟨clause, List.mem_of_getElem? hclause, hbody, hhead⟩

theorem feeds_of_supports (hall : ∀ c < clauses.length, c ∈ chosen) {s t : GroundTuple}
    (hsupports : Supports clauses s t) : Feeds clauses chosen s t := by
  obtain ⟨clause, hclause, hbody, hhead⟩ := hsupports
  obtain ⟨c, hc⟩ := List.mem_iff_getElem?.mp hclause
  exact ⟨c, hall c (List.getElem?_eq_some_iff.mp hc).1, clause, hc, hbody, hhead⟩

/-- When all clauses are chosen, the tuples that matter are those that lead to an observed one. -/
theorem reaches_iff_matters (hall : ∀ c < clauses.length, c ∈ chosen) {s : GroundTuple} :
    Reaches clauses chosen observed s ↔ Matters clauses observed s := by
  constructor
  · rintro ⟨t, ht, hchain⟩
    exact ⟨t, ht, ReflTransGen.mono (fun _ _ => supports_of_feeds) _ _ hchain⟩
  · rintro ⟨t, ht, hchain⟩
    exact ⟨t, ht, ReflTransGen.mono (fun _ _ => feeds_of_supports hall) _ _ hchain⟩

/-! ## What is retained -/

/-- The chosen clauses that are relevant for observed tuples, and what follows for them: every
chosen clause behind a retained one is retained, and every retained clause is connected with an
observed tuple by retained clauses. -/
structure RetainsRelevant (clauses : List GroundClause) (chosen : List Nat)
    (observed : List GroundTuple) (retained : List Nat) : Prop where
  ascending : retained.Pairwise (· < ·)
  mem_iff : ∀ c, c ∈ retained ↔ c ∈ chosen ∧ ∃ clause, clauses[c]? = some clause ∧
    Reaches clauses chosen observed clause.head
  derivers : ∀ c ∈ retained, ∀ s ∈ bodyAt clauses c, ∀ d ∈ chosen, ∀ deriver,
    clauses[d]? = some deriver → deriver.head = s → d ∈ retained
  connected : ∀ c ∈ retained, ∃ clause, clauses[c]? = some clause ∧
    Reaches clauses retained observed clause.head

theorem RetainsRelevant.of_mem_iff (hascending : retained.Pairwise (· < ·))
    (hmem : ∀ c, c ∈ retained ↔ c ∈ chosen ∧ ∃ clause, clauses[c]? = some clause ∧
      Reaches clauses chosen observed clause.head) :
    RetainsRelevant clauses chosen observed retained where
  ascending := hascending
  mem_iff := hmem
  derivers := by
    intro c hc s hs d hd deriver hderiver hhead
    obtain ⟨hchosen, clause, hclause, hreaches⟩ := (hmem c).mp hc
    rw [bodyAt_of_getElem? hclause] at hs
    have hfeeds : Feeds clauses chosen s clause.head := ⟨c, hchosen, clause, hclause, hs, rfl⟩
    exact (hmem d).mpr ⟨hd, deriver, hderiver, hhead ▸ hreaches.of_feeds hfeeds⟩
  connected := by
    -- Every clause on the way to an observed tuple has a head that leads there.
    have hretained : ∀ {s t}, t ∈ observed → ReflTransGen (Feeds clauses chosen) s t →
        ReflTransGen (Feeds clauses retained) s t := by
      intro s t ht hchain
      induction hchain using ReflTransGen.head_induction_on with
      | refl => exact ReflTransGen.refl
      | head hstep hrest ih =>
          obtain ⟨c, hchosen, clause, hclause, hbody, rfl⟩ := hstep
          have hc : c ∈ retained := (hmem c).mpr ⟨hchosen, clause, hclause, _, ht, hrest⟩
          exact ReflTransGen.head ⟨c, hc, clause, hclause, hbody, rfl⟩ ih
    intro c hc
    obtain ⟨_, clause, hclause, t, ht, hchain⟩ := (hmem c).mp hc
    exact ⟨clause, hclause, t, ht, hretained ht hchain⟩

theorem backwardClosure_retains (clauses : List GroundClause) (observed : List GroundTuple) :
    RetainsRelevant clauses (List.range clauses.length) observed
      (backwardClosure clauses observed) := by
  apply RetainsRelevant.of_mem_iff
  · exact List.pairwise_lt_range.filter _
  · intro c
    rw [mem_backwardClosure]
    constructor
    · rintro ⟨clause, hclause, hmatters⟩
      have hlt := (List.getElem?_eq_some_iff.mp hclause).1
      exact ⟨List.mem_range.mpr hlt, clause, hclause,
        (reaches_iff_matters fun _ hc => List.mem_range.mpr hc).mpr hmatters⟩
    · rintro ⟨_, clause, hclause, hreaches⟩
      exact ⟨clause, hclause,
        (reaches_iff_matters fun _ hc => List.mem_range.mpr hc).mp hreaches⟩

namespace ClausePruner

variable {inputs : List GroundTuple}

theorem mem_chosenClauses {p : ClausePruner} (hindex : p.index = ClauseIndex.ofClauses clauses)
    {c : Nat} : c ∈ p.chosenClauses ↔ c < clauses.length ∧ c ∈ p.chosen := by
  unfold chosenClauses
  rw [ClauseIndex.mem_members, hindex, ClauseIndex.rules_length_ofClauses]

theorem feeds_chosenClauses {p : ClausePruner} (hindex : p.index = ClauseIndex.ofClauses clauses)
    {s t : GroundTuple} :
    Feeds clauses p.chosenClauses s t ↔ Feeds clauses p.chosen s t := by
  constructor
  · rintro ⟨c, hc, hrest⟩
    exact ⟨c, ((mem_chosenClauses hindex).mp hc).2, hrest⟩
  · rintro ⟨c, hc, clause, hclause, hrest⟩
    have hlt := (List.getElem?_eq_some_iff.mp hclause).1
    exact ⟨c, (mem_chosenClauses hindex).mpr ⟨hlt, hc⟩, clause, hclause, hrest⟩

/-- A pruner keeps the relevant ones among the clauses that it has chosen, which are the forward
ones until it is augmented and the augmented ones from then on.  The plain walk back keeps the
relevant ones among all clauses. -/
theorem retains_relevant (clauses : List GroundClause) (inputs observed : List GroundTuple)
    (augmented : Bool) :
    (ofClausesWith clauses inputs augmented).chosenClauses =
        (if augmented then (ofClausesWith clauses inputs augmented).augmentedClauses
          else (ofClausesWith clauses inputs augmented).forwardClauses) ∧
      RetainsRelevant clauses (ofClausesWith clauses inputs augmented).chosenClauses observed
        ((ofClausesWith clauses inputs augmented).activeClauses observed) ∧
      RetainsRelevant clauses (List.range clauses.length) observed
        (backwardClosure clauses observed) := by
  set p := ofClausesWith clauses inputs augmented with hp
  have hindex : p.index = ClauseIndex.ofClauses clauses := index_ofClausesWith augmented
  refine ⟨?_, ?_, backwardClosure_retains clauses observed⟩
  · rw [hp]
    cases augmented <;> rfl
  · have hfeeds : Feeds clauses p.chosenClauses = Feeds clauses p.chosen := by
      funext s t
      exact propext (feeds_chosenClauses hindex)
    apply RetainsRelevant.of_mem_iff
    · exact ClauseIndex.activeRules_ascending _ _
    · intro c
      unfold activeClauses Reaches
      rw [hfeeds, hindex, ClauseIndex.mem_activeRules_iff, mem_chosenClauses hindex]
      constructor
      · rintro ⟨hchosen, clause, hclause, hreaches⟩
        exact ⟨⟨(List.getElem?_eq_some_iff.mp hclause).1, hchosen⟩, clause, hclause, hreaches⟩
      · rintro ⟨⟨_, hchosen⟩, hrelevant⟩
        exact ⟨hchosen, hrelevant⟩

end ClausePruner

end DerivationBelief

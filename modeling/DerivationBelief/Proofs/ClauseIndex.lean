import DerivationBelief.ClauseIndex
import DerivationBelief.Proofs.AcyclicRelation
import DerivationBelief.Proofs.ArrivalOrder
import Mathlib.Tactic

/-!
# Numbered rules and the clauses they stand for

The numbers of an index stand for the tuples that the clauses mention, one number for each tuple,
and the rules stand for the clauses.  One tuple feeds another when some chosen clause has the first
in its body and the second as its head; a set of clauses is acyclic over tuples exactly when its
rules are acyclic over numbers.
-/

namespace DerivationBelief

/-- Some chosen clause derives the second tuple from a body with the first one. -/
def Feeds (clauses : List GroundClause) (chosen : List Nat) (s t : GroundTuple) : Prop :=
  ∃ c ∈ chosen, ∃ clause, clauses[c]? = some clause ∧
    s ∈ clause.bodyTuples ∧ clause.head = t

namespace ClauseIndex

/-- Some chosen rule derives the second number from a body with the first one. -/
def Feeds (index : ClauseIndex) (chosen : List Nat) (s t : Nat) : Prop :=
  ∃ c ∈ chosen, c < index.rules.length ∧ s ∈ index.body c ∧ index.head c = t

theorem Feeds.mono {index : ClauseIndex} {chosen more : List Nat} (hsub : chosen ⊆ more)
    {s t : Nat} (hfeeds : index.Feeds chosen s t) : index.Feeds more s t := by
  obtain ⟨c, hc, hrest⟩ := hfeeds
  exact ⟨c, hsub hc, hrest⟩

theorem foldl_max_le_iff {values : List Nat} {first bound : Nat} :
    values.foldl max first ≤ bound ↔ first ≤ bound ∧ ∀ x ∈ values, x ≤ bound := by
  induction values generalizing first with
  | nil => simp
  | cons y values ih =>
      rw [List.foldl_cons, ih, max_le_iff, List.forall_mem_cons, and_assoc]

section Numbers

variable (index : ClauseIndex)

theorem mem_ruleNumbers {holds : Nat → Rule → Bool} {c : Nat} :
    c ∈ index.ruleNumbers holds ↔ ∃ rule, index.rules[c]? = some rule ∧ holds c rule = true := by
  unfold ruleNumbers
  simp only [List.mem_map, List.mem_filter, Prod.exists, exists_eq_right,
    List.mem_zipIdx_iff_getElem?]

theorem ruleNumbers_ascending (holds : Nat → Rule → Bool) :
    (index.ruleNumbers holds).Pairwise (· < ·) := by
  have hnumbers : (index.rules.zipIdx.map Prod.snd).Pairwise (· < ·) := by
    rw [List.zipIdx_map_snd]
    exact List.pairwise_lt_range' 1
  exact hnumbers.sublist (List.filter_sublist.map Prod.snd)

theorem ruleNumbers_nodup (holds : Nat → Rule → Bool) : (index.ruleNumbers holds).Nodup :=
  (index.ruleNumbers_ascending holds).imp Nat.ne_of_lt

theorem rule_of_lt {c : Nat} (hc : c < index.rules.length) :
    index.rules[c]? = some ⟨index.head c, index.body c⟩ := by
  simp [head, body, hc]

theorem mem_ruleNumbers_iff {holds : Nat → Rule → Bool} {c : Nat} :
    c ∈ index.ruleNumbers holds ↔
      c < index.rules.length ∧ holds c ⟨index.head c, index.body c⟩ = true := by
  rw [mem_ruleNumbers]
  constructor
  · rintro ⟨rule, hrule, hholds⟩
    have hlt : c < index.rules.length := (List.getElem?_eq_some_iff.mp hrule).1
    rw [index.rule_of_lt hlt, Option.some.injEq] at hrule
    exact ⟨hlt, hrule ▸ hholds⟩
  · rintro ⟨hlt, hholds⟩
    exact ⟨_, index.rule_of_lt hlt, hholds⟩

theorem mem_antecedents {c t : Nat} :
    c ∈ index.antecedents t ↔ c < index.rules.length ∧ index.head c = t := by
  unfold antecedents
  simp [mem_ruleNumbers_iff]

theorem mem_consequents {c t : Nat} :
    c ∈ index.consequents t ↔ c < index.rules.length ∧ t ∈ index.body c := by
  unfold consequents
  simp [mem_ruleNumbers_iff]

/-- The bodies of the chosen rules for a number are what feeds it. -/
theorem mem_bodies_iff_feeds {chosen : List Nat} {s t : Nat} :
    s ∈ ((index.antecedents t).filter (fun c => chosen.contains c)).flatMap index.body ↔
      index.Feeds chosen s t := by
  simp only [List.mem_flatMap, List.mem_filter, index.mem_antecedents, List.contains_iff_mem, Feeds]
  constructor
  · rintro ⟨c, ⟨⟨hlt, hhead⟩, hc⟩, hbody⟩
    exact ⟨c, hc, hlt, hbody, hhead⟩
  · rintro ⟨c, hc, hlt, hbody, hhead⟩
    exact ⟨c, ⟨⟨hlt, hhead⟩, hc⟩, hbody⟩

/-- The heads of the chosen rules that use a number are what it feeds. -/
theorem mem_heads_iff_feeds {chosen : List Nat} {s t : Nat} :
    t ∈ ((index.consequents s).filter (fun c => chosen.contains c)).map index.head ↔
      index.Feeds chosen s t := by
  simp only [List.mem_map, List.mem_filter, index.mem_consequents, List.contains_iff_mem, Feeds]
  constructor
  · rintro ⟨c, ⟨⟨hlt, hbody⟩, hc⟩, hhead⟩
    exact ⟨c, hc, hlt, hbody, hhead⟩
  · rintro ⟨c, hc, hlt, hbody, hhead⟩
    exact ⟨c, ⟨⟨hlt, hbody⟩, hc⟩, hhead⟩

@[simp] theorem mem_members {accepted : List Nat} {c : Nat} :
    c ∈ index.members accepted ↔ c < index.rules.length ∧ c ∈ accepted := by
  simp [members]

/-- Heads and bodies are numbers of the index, and bodies have no repetitions. -/
structure WellFormed : Prop where
  head_lt : ∀ c < index.rules.length, index.head c < index.size
  body_lt : ∀ c, ∀ t ∈ index.body c, t < index.size
  body_nodup : ∀ c, (index.body c).Nodup

end Numbers

/-! ## The index of a clause list -/

section OfClauses

variable {clauses : List GroundClause}

theorem mem_mentioned {t : GroundTuple} :
    t ∈ mentioned clauses ↔ ∃ clause ∈ clauses, t = clause.head ∨ t ∈ clause.bodyTuples := by
  simp [mentioned]

theorem mentioned_nodup (clauses : List GroundClause) : (mentioned clauses).Nodup :=
  Arrival.distinct_nodup _

theorem head_mem_mentioned {c : Nat} {clause : GroundClause} (hclause : clauses[c]? = some clause) :
    clause.head ∈ mentioned clauses :=
  mem_mentioned.mpr ⟨clause, List.mem_of_getElem? hclause, Or.inl rfl⟩

theorem body_subset_mentioned {c : Nat} {clause : GroundClause}
    (hclause : clauses[c]? = some clause) {t : GroundTuple} (ht : t ∈ clause.bodyTuples) :
    t ∈ mentioned clauses :=
  mem_mentioned.mpr ⟨clause, List.mem_of_getElem? hclause, Or.inr ht⟩

@[simp] theorem tuples_ofClauses (clauses : List GroundClause) :
    (ofClauses clauses).tuples = mentioned clauses := rfl

@[simp] theorem rules_length_ofClauses (clauses : List GroundClause) :
    (ofClauses clauses).rules.length = clauses.length := by
  simp [ofClauses]

theorem lt_rules_length {c : Nat} {clause : GroundClause} (hclause : clauses[c]? = some clause) :
    c < (ofClauses clauses).rules.length := by
  rw [rules_length_ofClauses]
  exact (List.getElem?_eq_some_iff.mp hclause).1

theorem head_ofClauses {c : Nat} {clause : GroundClause} (hclause : clauses[c]? = some clause) :
    (ofClauses clauses).head c = (mentioned clauses).idxOf clause.head := by
  simp [head, ofClauses, hclause]

theorem mem_body_ofClauses {c : Nat} {clause : GroundClause}
    (hclause : clauses[c]? = some clause) {t : Nat} :
    t ∈ (ofClauses clauses).body c ↔
      ∃ s ∈ clause.bodyTuples, (mentioned clauses).idxOf s = t := by
  simp [body, ofClauses, hclause]

theorem distinct_numbers {clause : GroundClause} (hclause : clause ∈ clauses) :
    Arrival.distinct (clause.bodyTuples.map (fun t => (mentioned clauses).idxOf t)) =
      (Arrival.distinct clause.bodyTuples).map (fun t => (mentioned clauses).idxOf t) := by
  apply Arrival.distinct_map
  intro s hs t _ hsame
  exact (List.idxOf_inj (mem_mentioned.mpr ⟨clause, hclause, Or.inr hs⟩)).mp hsame

theorem body_ofClauses {c : Nat} {clause : GroundClause} (hclause : clauses[c]? = some clause) :
    (ofClauses clauses).body c =
      (Arrival.distinct clause.bodyTuples).map (fun t => (mentioned clauses).idxOf t) := by
  rw [← distinct_numbers (List.mem_of_getElem? hclause)]
  simp [body, ofClauses, hclause]

/-- The bodies hold as many numbers as the clauses have different tuples in their bodies. -/
theorem sum_length_body (clauses : List GroundClause) :
    ((ofClauses clauses).rules.map (fun rule => rule.body.length + 1)).sum =
      (clauses.map (fun clause => clause.bodyTuples.toFinset.card + 1)).sum := by
  have hrules : (ofClauses clauses).rules.map (fun rule => rule.body.length + 1) =
      clauses.map (fun clause => clause.bodyTuples.toFinset.card + 1) := by
    simp only [ofClauses, List.map_map]
    apply List.map_congr_left
    intro clause hclause
    simp only [Function.comp_apply, distinct_numbers hclause, List.length_map,
      Arrival.length_distinct]
  rw [hrules]

theorem ofClauses_wellFormed (clauses : List GroundClause) : (ofClauses clauses).WellFormed where
  head_lt := by
    intro c hc
    rw [rules_length_ofClauses] at hc
    rw [head_ofClauses (List.getElem?_eq_getElem hc)]
    exact List.idxOf_lt_length_of_mem (head_mem_mentioned (List.getElem?_eq_getElem hc))
  body_lt := by
    intro c t ht
    cases hclause : clauses[c]? with
    | none => simp [body, ofClauses, hclause] at ht
    | some clause =>
        obtain ⟨s, hs, rfl⟩ := (mem_body_ofClauses hclause).mp ht
        exact List.idxOf_lt_length_of_mem (body_subset_mentioned hclause hs)
  body_nodup := by
    intro c
    cases hclause : clauses[c]? with
    | none => simp [body, ofClauses, hclause]
    | some clause =>
        have hbody : (ofClauses clauses).body c = Arrival.distinct
            (clause.bodyTuples.map (fun t => (mentioned clauses).idxOf t)) := by
          simp [body, ofClauses, hclause]
        rw [hbody]
        exact Arrival.distinct_nodup _

theorem feeds_idxOf {chosen : List Nat} {s t : GroundTuple}
    (hfeeds : DerivationBelief.Feeds clauses chosen s t) :
    (ofClauses clauses).Feeds chosen ((mentioned clauses).idxOf s)
      ((mentioned clauses).idxOf t) := by
  obtain ⟨c, hc, clause, hclause, hs, rfl⟩ := hfeeds
  exact ⟨c, hc, lt_rules_length hclause, (mem_body_ofClauses hclause).mpr ⟨s, hs, rfl⟩,
    head_ofClauses hclause⟩

theorem feeds_of_numbers {chosen : List Nat} {i j : Nat}
    (hfeeds : (ofClauses clauses).Feeds chosen i j) :
    ∃ s t, s ∈ mentioned clauses ∧ t ∈ mentioned clauses ∧
      (mentioned clauses).idxOf s = i ∧ (mentioned clauses).idxOf t = j ∧
      DerivationBelief.Feeds clauses chosen s t := by
  obtain ⟨c, hc, hlt, hi, rfl⟩ := hfeeds
  rw [rules_length_ofClauses] at hlt
  have hclause : clauses[c]? = some clauses[c] := List.getElem?_eq_getElem hlt
  obtain ⟨s, hs, rfl⟩ := (mem_body_ofClauses hclause).mp hi
  exact ⟨s, clauses[c].head, body_subset_mentioned hclause hs, head_mem_mentioned hclause, rfl,
    (head_ofClauses hclause).symm, c, hc, _, hclause, hs, rfl⟩

/-- A set of clauses has a cycle of tuples exactly if its rules have a cycle of numbers. -/
theorem acyclic_feeds_iff (chosen : List Nat) :
    Acyclic (DerivationBelief.Feeds clauses chosen) ↔
      Acyclic ((ofClauses clauses).Feeds chosen) := by
  constructor
  · intro hacyclic
    let tupleOf (i : Nat) : GroundTuple := (mentioned clauses).getD i ⟨"", []⟩
    have htuple : ∀ s ∈ mentioned clauses, tupleOf ((mentioned clauses).idxOf s) = s := by
      intro s hs
      simp [tupleOf, List.getD_eq_getElem?_getD,
        List.getElem?_eq_getElem (List.idxOf_lt_length_of_mem hs)]
    refine hacyclic.of_map tupleOf ?_
    intro i j hstep
    obtain ⟨s, t, hs, ht, rfl, rfl, hfeeds⟩ := feeds_of_numbers hstep
    rwa [htuple s hs, htuple t ht]
  · intro hacyclic
    exact hacyclic.of_map (fun t => (mentioned clauses).idxOf t) (fun _ _ => feeds_idxOf)

end OfClauses

end ClauseIndex

end DerivationBelief

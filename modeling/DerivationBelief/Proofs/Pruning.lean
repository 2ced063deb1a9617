import DerivationBelief.ClausePruner
import DerivationBelief.Proofs.Augmentation
import DerivationBelief.Proofs.BirthDates
import DerivationBelief.Proofs.Relevance
import Mathlib.Tactic

/-!
# Pruning loses no derivable fact

A derivable tuple that is no input has a derivation of least height, whose last clause derives it
from lower tuples and so goes forward in time.  The chosen clauses contain the forward ones, and the
walk back marks the bodies of the clauses it goes through.  By induction on the birth date, a
derivable tuple that the walk reaches is derivable by active clauses alone.
-/

namespace DerivationBelief

namespace ClauseIndex

variable {index : ClauseIndex} {inputs : List GroundTuple}

/-- A derivable number is given or derived by a forward rule from derivable numbers. -/
theorem exists_forward (hindex : index.WellFormed) {height t : Nat} (ht : t < index.size)
    (hheight : index.Within (index.Given inputs) height t) :
    index.Given inputs t ∨
      ∃ c ∈ index.forwardRules (index.birthDates inputs), index.head c = t ∧
        ∀ b ∈ index.body c, index.birthDate inputs b < index.birthDate inputs t ∧
          ∃ low, index.Within (index.Given inputs) low b := by
  have hdate := within_birthDate hindex ht hheight
  cases hn : index.birthDate inputs t with
  | zero =>
      rw [hn] at hdate
      exact Or.inl hdate
  | succ low =>
      rw [hn] at hdate
      rcases hdate with hlower | ⟨c, hc, hhead, hbody⟩
      · have hle := birthDate_le_of_within hindex ht hlower
        omega
      · right
        have hearlier : ∀ b ∈ index.body c, index.birthDate inputs b ≤ low := fun b hb =>
          birthDate_le_of_within hindex (hindex.body_lt c b hb) (hbody b hb)
        refine ⟨c, mem_forwardRules.mpr ⟨hc, ?_⟩, hhead, ?_⟩
        · rw [birthDates_getD hindex, hhead, hn, Nat.lt_succ_iff, foldl_max_le_iff]
          refine ⟨Nat.zero_le low, ?_⟩
          intro x hx
          obtain ⟨b, hb, rfl⟩ := List.mem_map.mp hx
          rw [birthDates_getD hindex]
          exact hearlier b hb
        · intro b hb
          exact ⟨Nat.lt_succ_of_le (hearlier b hb), low, hbody b hb⟩

end ClauseIndex

namespace ClausePruner

variable {clauses : List GroundClause} {inputs observed : List GroundTuple}

def ofClausesWith (clauses : List GroundClause) (inputs : List GroundTuple) (augmented : Bool) :
    ClausePruner :=
  if augmented then (ofClauses clauses inputs).augment else ofClauses clauses inputs

def clausesAt (clauses : List GroundClause) (positions : List Nat) : List GroundClause :=
  positions.filterMap (fun c => clauses[c]?)

theorem mem_clausesAt {positions : List Nat} {c : Nat} {clause : GroundClause}
    (hclause : clauses[c]? = some clause) (hc : c ∈ positions) :
    clause ∈ clausesAt clauses positions :=
  List.mem_filterMap.mpr ⟨c, hc, hclause⟩

theorem forwardRules_subset_chosen (augmented : Bool) :
    (ClauseIndex.ofClauses clauses).forwardRules
        ((ClauseIndex.ofClauses clauses).birthDates inputs) ⊆
      (ofClausesWith clauses inputs augmented).chosen := by
  cases augmented with
  | false => exact List.Subset.refl _
  | true =>
      have hadmitted := ClauseIndex.augment_admitted (ClauseIndex.ofClauses_wellFormed clauses)
        ((ClauseIndex.ofClauses clauses).forwardRules_acyclic
          ((ClauseIndex.ofClauses clauses).birthDates inputs))
      exact hadmitted.keeps

/-- The chosen clauses have no cycle, before and after augmenting. -/
theorem chosen_acyclic (clauses : List GroundClause) (inputs : List GroundTuple)
    (augmented : Bool) :
    Acyclic (Feeds clauses (ofClausesWith clauses inputs augmented).chosen) := by
  rw [ClauseIndex.acyclic_feeds_iff]
  have hforward := (ClauseIndex.ofClauses clauses).forwardRules_acyclic
    ((ClauseIndex.ofClauses clauses).birthDates inputs)
  cases augmented with
  | false => exact hforward
  | true =>
      exact (ClauseIndex.augment_admitted (ClauseIndex.ofClauses_wellFormed clauses)
        hforward).acyclic

theorem index_ofClausesWith (augmented : Bool) :
    (ofClausesWith clauses inputs augmented).index = ClauseIndex.ofClauses clauses := by
  cases augmented <;> rfl

theorem mem_coreachable {p : ClausePruner} {t : GroundTuple} :
    t ∈ p.coreachable observed ↔ (t ∈ observed ∧ t ∉ p.index.tuples) ∨
      ∃ i, p.index.tuples[i]? = some t ∧ i ∈ p.index.coreachable p.chosen observed := by
  simp [coreachable, List.mem_zipIdx_iff_getElem?, and_comm]

/-- A marked tuple with a derivation has one by active clauses alone. -/
theorem derivable_of_marked (augmented : Bool) {t : GroundTuple}
    (ht : t ∈ ClauseIndex.mentioned clauses)
    (hmarked : (ClauseIndex.mentioned clauses).idxOf t ∈
      (ClauseIndex.ofClauses clauses).coreachable
        (ofClausesWith clauses inputs augmented).chosen observed)
    (hderivable : Derivable clauses inputs t) :
    Derivable (clausesAt clauses
      ((ofClausesWith clauses inputs augmented).activeClauses observed)) inputs t := by
  have hindex := ClauseIndex.ofClauses_wellFormed clauses
  induction hdate : (ClauseIndex.ofClauses clauses).birthDate inputs
    ((ClauseIndex.mentioned clauses).idxOf t) using Nat.strong_induction_on generalizing t with
  | _ n ih =>
      subst n
      obtain ⟨height, hheight⟩ := ClauseIndex.exists_within_of_derivable hderivable ht
      rcases ClauseIndex.exists_forward hindex (List.idxOf_lt_length_of_mem ht) hheight with
        hgiven | ⟨c, hforward, hhead, hbody⟩
      · exact Derivable.input ((ClauseIndex.given_idxOf ht).mp hgiven)
      · have hlt := (ClauseIndex.mem_forwardRules.mp hforward).1
        have hchosen := forwardRules_subset_chosen augmented hforward
        have hcount : c < clauses.length := by
          simpa using hlt
        have hclause : clauses[c]? = some clauses[c] := List.getElem?_eq_getElem hcount
        have hsame : clauses[c].head = t := by
          rw [ClauseIndex.head_ofClauses hclause] at hhead
          exact (List.idxOf_inj (ClauseIndex.head_mem_mentioned hclause)).mp hhead
        have hactive : c ∈ (ofClausesWith clauses inputs augmented).activeClauses observed := by
          unfold activeClauses
          rw [index_ofClausesWith, ClauseIndex.mem_activeRules]
          exact ⟨hlt, hchosen, hhead ▸ hmarked⟩
        rw [← hsame]
        apply Derivable.clause (mem_clausesAt hclause hactive)
        intro s hs
        have hnumber := (ClauseIndex.mem_body_ofClauses hclause).mpr ⟨s, hs, rfl⟩
        have hmentioned := ClauseIndex.body_subset_mentioned hclause hs
        obtain ⟨hearlier, low, hlow⟩ := hbody _ hnumber
        apply ih _ hearlier hmentioned _ (ClauseIndex.derivable_of_within hmentioned hlow) rfl
        exact ClauseIndex.coreachable_closed hindex hmarked ⟨c, hchosen, hlt, hnumber, hhead⟩

/-- A tuple that the walk back from the observed tuples reaches and that is derivable by all
clauses is derivable by the active ones. -/
theorem derivable_of_coreachable (clauses : List GroundClause) (inputs observed : List GroundTuple)
    (augmented : Bool) {t : GroundTuple}
    (hreached : t ∈ (ofClausesWith clauses inputs augmented).coreachable observed)
    (hderivable : Derivable clauses inputs t) :
    Derivable (clausesAt clauses
      ((ofClausesWith clauses inputs augmented).activeClauses observed)) inputs t := by
  rw [mem_coreachable, index_ofClausesWith] at hreached
  rcases hreached with ⟨_, houtside⟩ | ⟨i, hi, hmarked⟩
  · -- No clause derives a tuple that no clause mentions.
    cases hderivable with
    | input hinput => exact Derivable.input hinput
    | clause hclause _ =>
        exact absurd (ClauseIndex.mem_mentioned.mpr ⟨_, hclause, Or.inl rfl⟩) houtside
  · have ht : t ∈ ClauseIndex.mentioned clauses := List.mem_of_getElem? hi
    have hidx : (ClauseIndex.mentioned clauses).idxOf t = i := by
      obtain ⟨hlt, rfl⟩ := List.getElem?_eq_some_iff.mp hi
      exact (ClauseIndex.mentioned_nodup clauses).idxOf_getElem i hlt
    exact derivable_of_marked augmented ht (hidx ▸ hmarked) hderivable

/-! ## A circular clause set -/

def letter (relation : String) : GroundTuple :=
  ⟨relation, []⟩

/-- `A` and `B` derive each other, and the input `I` derives `A`. -/
def circularClauses : List GroundClause :=
  [GroundClause.positive 0 (letter "A") [letter "B"],
    GroundClause.positive 1 (letter "A") [letter "I"],
    GroundClause.positive 2 (letter "B") [letter "A"]]

theorem circular_letterA_derivable : Derivable circularClauses [letter "I"] (letter "A") := by
  apply @Derivable.clause _ _ (GroundClause.positive 1 (letter "A") [letter "I"]) (by decide)
  intro s hs
  have hletter : s = letter "I" := by
    simpa [GroundClause.positive, GroundClause.bodyTuples] using hs
  subst s
  exact Derivable.input (by decide)

theorem circular_letterA_still_derivable :
    Derivable (clausesAt circularClauses
      ((ofClausesWith circularClauses [letter "I"] true).activeClauses [letter "B"]))
      [letter "I"] (letter "A") :=
  derivable_of_coreachable circularClauses [letter "I"] [letter "B"] true (by decide)
    circular_letterA_derivable

end ClausePruner

end DerivationBelief

import DerivationBelief.Proofs.Pruning
import Mathlib.Data.Finset.Card
import Mathlib.Order.Bounds.Basic
import Mathlib.Tactic

/-!
# A birth date is a least height

A derivation of an input has height zero, and a clause is one higher than the highest of the
derivations of its body.  The date of a tuple with a derivation is the least height of one, and a
tuple without a derivation has the number of tuples as its date.  Heights depend on which clauses
and inputs there are, and not on their order, so neither do the dates and the forward clauses.
-/

namespace DerivationBelief

/-- Derivable from the inputs by a derivation of exactly some height. -/
inductive DerivedAt (clauses : List GroundClause) (inputs : List GroundTuple) :
    GroundTuple → Nat → Prop
  | input {t : GroundTuple} : t ∈ inputs → DerivedAt clauses inputs t 0
  | clause {clause : GroundClause} (heights : GroundTuple → Nat) : clause ∈ clauses →
      (∀ s ∈ clause.bodyTuples, DerivedAt clauses inputs s (heights s)) →
      DerivedAt clauses inputs clause.head ((clause.bodyTuples.map heights).foldl max 0 + 1)

section Heights

variable {clauses others : List GroundClause} {inputs given : List GroundTuple}

theorem DerivedAt.derivable {t : GroundTuple} {height : Nat}
    (hderived : DerivedAt clauses inputs t height) : Derivable clauses inputs t := by
  induction hderived with
  | input hinput => exact Derivable.input hinput
  | clause _ hclause _ ih => exact Derivable.clause hclause ih

theorem DerivedAt.mono {t : GroundTuple} {height : Nat}
    (hderived : DerivedAt clauses inputs t height) (hclauses : clauses ⊆ others)
    (hinputs : inputs ⊆ given) : DerivedAt others given t height := by
  induction hderived with
  | input hinput => exact DerivedAt.input (hinputs hinput)
  | clause heights hclause _ ih => exact DerivedAt.clause heights (hclauses hclause) ih

namespace ClauseIndex

theorem within_of_derivedAt {t : GroundTuple} {height : Nat}
    (hderived : DerivedAt clauses inputs t height) (ht : t ∈ mentioned clauses) :
    (ofClauses clauses).Within ((ofClauses clauses).Given inputs) height
      ((mentioned clauses).idxOf t) := by
  induction hderived with
  | input hinput => exact (given_idxOf ht).mpr hinput
  | @clause clause heights hclause _ ih =>
      obtain ⟨c, hc⟩ := List.mem_iff_getElem?.mp hclause
      refine Or.inr ⟨c, lt_rules_length hc, head_ofClauses hc, ?_⟩
      intro b hb
      obtain ⟨s, hs, rfl⟩ := (mem_body_ofClauses hc).mp hb
      refine (ih s hs (body_subset_mentioned hc hs)).mono ?_
      exact (foldl_max_le_iff.mp le_rfl).2 _ (List.mem_map_of_mem hs)

theorem exists_derivedAt_of_within {t : GroundTuple} {height : Nat} (ht : t ∈ mentioned clauses)
    (hheight : (ofClauses clauses).Within ((ofClauses clauses).Given inputs) height
      ((mentioned clauses).idxOf t)) :
    ∃ low ≤ height, DerivedAt clauses inputs t low := by
  induction height generalizing t with
  | zero => exact ⟨0, le_rfl, DerivedAt.input ((given_idxOf ht).mp hheight)⟩
  | succ height ih =>
      rcases hheight with hlow | ⟨c, hc, hhead, hbody⟩
      · obtain ⟨low, hle, hderived⟩ := ih ht hlow
        exact ⟨low, hle.trans (Nat.le_succ height), hderived⟩
      · rw [rules_length_ofClauses] at hc
        have hclause : clauses[c]? = some clauses[c] := List.getElem?_eq_getElem hc
        rw [head_ofClauses hclause] at hhead
        have hsame : clauses[c].head = t :=
          (List.idxOf_inj (head_mem_mentioned hclause)).mp hhead
        have hderived : ∀ s ∈ clauses[c].bodyTuples,
            ∃ low ≤ height, DerivedAt clauses inputs s low := by
          intro s hs
          exact ih (body_subset_mentioned hclause hs)
            (hbody _ ((mem_body_ofClauses hclause).mpr ⟨s, hs, rfl⟩))
        choose! heights hle hlow using hderived
        refine ⟨(clauses[c].bodyTuples.map heights).foldl max 0 + 1, ?_,
          hsame ▸ DerivedAt.clause heights (List.getElem_mem hc) hlow⟩
        rw [Nat.add_le_add_iff_right, foldl_max_le_iff]
        refine ⟨Nat.zero_le height, ?_⟩
        intro low hmem
        obtain ⟨s, hs, rfl⟩ := List.mem_map.mp hmem
        exact hle s hs

/-- The date of the number of a tuple. -/
def dateOf (clauses : List GroundClause) (inputs : List GroundTuple) (t : GroundTuple) : Nat :=
  (ofClauses clauses).birthDate inputs ((mentioned clauses).idxOf t)

theorem dateOf_le (clauses : List GroundClause) (inputs : List GroundTuple) (t : GroundTuple) :
    dateOf clauses inputs t ≤ (mentioned clauses).length :=
  (Dating.final_invariant (ofClauses_wellFormed clauses) inputs).1.date_le _

/-- The date of a derivable tuple is the least height of its derivations. -/
theorem dateOf_isLeast {t : GroundTuple} (ht : t ∈ mentioned clauses)
    (hderivable : Derivable clauses inputs t) :
    IsLeast {height | DerivedAt clauses inputs t height} (dateOf clauses inputs t) := by
  have hindex := ofClauses_wellFormed clauses
  have hnumber : (mentioned clauses).idxOf t < (ofClauses clauses).size :=
    List.idxOf_lt_length_of_mem ht
  have hbound : ∀ height, DerivedAt clauses inputs t height → dateOf clauses inputs t ≤ height :=
    fun height hderived => birthDate_le_of_within hindex hnumber (within_of_derivedAt hderived ht)
  obtain ⟨height, hheight⟩ := exists_within_of_derivable hderivable ht
  obtain ⟨low, hle, hlow⟩ :=
    exists_derivedAt_of_within ht (within_birthDate hindex hnumber hheight)
  have hsame : low = dateOf clauses inputs t := le_antisymm hle (hbound low hlow)
  exact ⟨hsame ▸ hlow, hbound⟩

theorem dateOf_of_not_derivable {t : GroundTuple} (ht : t ∈ mentioned clauses)
    (hunderivable : ¬ Derivable clauses inputs t) :
    dateOf clauses inputs t = (mentioned clauses).length := by
  apply le_antisymm (dateOf_le clauses inputs t)
  by_contra hearly
  have hwithin := within_of_birthDate_lt (ofClauses_wellFormed clauses) (Nat.lt_of_not_le hearly)
  exact hunderivable (derivable_of_within ht hwithin)

/-! ## The order of clauses and inputs -/

theorem mem_mentioned_perm (hclauses : clauses.Perm others) (t : GroundTuple) :
    t ∈ mentioned others ↔ t ∈ mentioned clauses := by
  simp only [mem_mentioned, hclauses.mem_iff]

theorem length_mentioned_perm (hclauses : clauses.Perm others) :
    (mentioned others).length = (mentioned clauses).length :=
  List.Perm.length_eq ((List.perm_ext_iff_of_nodup (mentioned_nodup others)
    (mentioned_nodup clauses)).mpr (mem_mentioned_perm hclauses))

theorem dateOf_perm (hclauses : clauses.Perm others) (hinputs : ∀ t, t ∈ inputs ↔ t ∈ given)
    {t : GroundTuple} (ht : t ∈ mentioned clauses) :
    dateOf others given t = dateOf clauses inputs t := by
  have hsame : ∀ height, DerivedAt others given t height ↔ DerivedAt clauses inputs t height :=
    fun height =>
      ⟨fun hother => hother.mono hclauses.symm.subset (fun s hs => (hinputs s).mpr hs),
        fun hderived => hderived.mono hclauses.subset (fun s hs => (hinputs s).mp hs)⟩
  have hmention := (mem_mentioned_perm hclauses t).mpr ht
  by_cases hderivable : Derivable clauses inputs t
  · have hleast := dateOf_isLeast ht hderivable
    have hother := dateOf_isLeast hmention ((hsame _).mpr hleast.1).derivable
    simp only [hsame] at hother
    exact hother.unique hleast
  · have hunderivable : ¬ Derivable others given t := by
      intro hother
      exact hderivable ((hsame _).mp (dateOf_isLeast hmention hother).1).derivable
    rw [dateOf_of_not_derivable ht hderivable, dateOf_of_not_derivable hmention hunderivable,
      length_mentioned_perm hclauses]

end ClauseIndex

end Heights

/-! ## Dates and forward clauses of a pruner -/

namespace ClausePruner

open ClauseIndex

variable {clauses others : List GroundClause} {inputs given : List GroundTuple}

theorem birthDate_of_mentioned {t : GroundTuple} (ht : t ∈ mentioned clauses) :
    (ofClauses clauses inputs).birthDate t = .ok (dateOf clauses inputs t) := by
  have hnumber : (ofClauses clauses inputs).index.number? t =
      some ((mentioned clauses).idxOf t) :=
    Arrival.position?_eq_some_iff.mpr ⟨ht, rfl⟩
  have hdate : (ofClauses clauses inputs).dates.getD ((mentioned clauses).idxOf t)
      (ofClauses clauses inputs).latestDate = dateOf clauses inputs t :=
    birthDates_getD (ofClauses_wellFormed clauses) _
  unfold birthDate
  rw [hnumber]
  exact congrArg Except.ok hdate

theorem birthDate_of_not_mentioned {t : GroundTuple} (ht : t ∉ mentioned clauses) :
    (ofClauses clauses inputs).birthDate t = .error (.unknownTuple t.text) := by
  have hnumber : (ofClauses clauses inputs).index.number? t = none :=
    Arrival.position?_eq_none_iff.mpr ht
  unfold birthDate
  rw [hnumber]

/-- Born after all of its body. -/
def GoesForward (clauses : List GroundClause) (inputs : List GroundTuple)
    (clause : GroundClause) : Prop :=
  (clause.bodyTuples.map (dateOf clauses inputs)).foldl max 0 < dateOf clauses inputs clause.head

theorem foldl_max_congr {values news : List Nat} (hsame : ∀ x, x ∈ values ↔ x ∈ news) :
    values.foldl max 0 = news.foldl max 0 := by
  apply le_antisymm
  · rw [foldl_max_le_iff]
    exact ⟨Nat.zero_le _, fun x hx => (foldl_max_le_iff.mp le_rfl).2 x ((hsame x).mp hx)⟩
  · rw [foldl_max_le_iff]
    exact ⟨Nat.zero_le _, fun x hx => (foldl_max_le_iff.mp le_rfl).2 x ((hsame x).mpr hx)⟩

theorem mem_forward {c : Nat} {clause : GroundClause} (hclause : clauses[c]? = some clause) :
    c ∈ (ofClauses clauses inputs).forward ↔ GoesForward clauses inputs clause := by
  have hbody : (((ClauseIndex.ofClauses clauses).body c).map
      ((ClauseIndex.ofClauses clauses).birthDate inputs)).foldl max 0 =
        (clause.bodyTuples.map (dateOf clauses inputs)).foldl max 0 := by
    apply foldl_max_congr
    intro date
    simp only [List.mem_map, mem_body_ofClauses hclause, exists_exists_and_eq_and, dateOf]
  have hforward : c ∈ (ofClauses clauses inputs).forward ↔
      ((((ClauseIndex.ofClauses clauses).body c).map
        ((ClauseIndex.ofClauses clauses).birthDate inputs)).foldl max 0 <
          (ClauseIndex.ofClauses clauses).birthDate inputs
            ((ClauseIndex.ofClauses clauses).head c)) := by
    refine mem_forwardRules.trans ((and_iff_right (lt_rules_length hclause)).trans ?_)
    simp only [birthDates_getD (ofClauses_wellFormed clauses)]
  rw [hforward, hbody, head_ofClauses hclause]
  rfl

theorem goesForward_perm (hclauses : clauses.Perm others) (hinputs : ∀ t, t ∈ inputs ↔ t ∈ given)
    {clause : GroundClause} (hclause : clause ∈ clauses) :
    GoesForward others given clause ↔ GoesForward clauses inputs clause := by
  have hbody : clause.bodyTuples.map (dateOf others given) =
      clause.bodyTuples.map (dateOf clauses inputs) := by
    apply List.map_congr_left
    intro s hs
    exact dateOf_perm hclauses hinputs (mem_mentioned.mpr ⟨clause, hclause, Or.inr hs⟩)
  unfold GoesForward
  rw [hbody, dateOf_perm hclauses hinputs (mem_mentioned.mpr ⟨clause, hclause, Or.inl rfl⟩)]

theorem clausesAt_range_filter {forward : Nat → Bool} {holds : GroundClause → Bool}
    (hholds : ∀ c clause, clauses[c]? = some clause → forward c = holds clause) :
    clausesAt clauses ((List.range clauses.length).filter forward) = clauses.filter holds := by
  induction clauses using List.reverseRecOn with
  | nil => rfl
  | append_singleton clauses clause ih =>
      have hlast : forward clauses.length = holds clause :=
        hholds _ _ List.getElem?_concat_length
      have hinit := ih fun c other hother => hholds c other (by
        rw [List.getElem?_append_left (List.getElem?_eq_some_iff.mp hother).1]
        exact hother)
      have hsame : clausesAt (clauses ++ [clause]) ((List.range clauses.length).filter forward) =
          clausesAt clauses ((List.range clauses.length).filter forward) := by
        apply List.filterMap_congr
        intro c hc
        exact List.getElem?_append_left (List.mem_range.mp (List.mem_filter.mp hc).1)
      rw [List.filter_append, ← hinit, ← hsame, List.length_append, List.length_singleton,
        List.range_succ, List.filter_append]
      unfold clausesAt
      rw [List.filterMap_append]
      congr 1
      simp only [List.filter_singleton, hlast]
      cases holds clause <;> simp

open Classical in
/-- The forward clauses are those that go forward, in the order of all clauses. -/
theorem clausesAt_forwardClauses (clauses : List GroundClause) (inputs : List GroundTuple) :
    clausesAt clauses (ofClauses clauses inputs).forwardClauses =
      clauses.filter (fun clause => decide (GoesForward clauses inputs clause)) := by
  have hforward : (ofClauses clauses inputs).forwardClauses =
      (List.range clauses.length).filter (ofClauses clauses inputs).forward.contains :=
    congrArg (fun count => (List.range count).filter
      (ofClauses clauses inputs).forward.contains) (rules_length_ofClauses clauses)
  rw [hforward]
  apply clausesAt_range_filter
  intro c clause hclause
  rw [List.contains_eq_mem, decide_eq_decide, mem_forward hclause]

theorem forwardClauses_perm (hclauses : clauses.Perm others)
    (hinputs : ∀ t, t ∈ inputs ↔ t ∈ given) :
    (clausesAt others (ofClauses others given).forwardClauses).Perm
      (clausesAt clauses (ofClauses clauses inputs).forwardClauses) := by
  classical
  rw [clausesAt_forwardClauses, clausesAt_forwardClauses]
  have hsame : clauses.filter (fun clause => decide (GoesForward others given clause)) =
      clauses.filter (fun clause => decide (GoesForward clauses inputs clause)) := by
    apply List.filter_congr
    intro clause hclause
    rw [decide_eq_decide, goesForward_perm hclauses hinputs hclause]
  rw [← hsame]
  exact hclauses.symm.filter _

/-- The date of a mentioned tuple is the least height of its derivations.  No least height exceeds
the number of different tuples, which is the date of a tuple without a derivation.  The dates and
the forward clauses do not depend on the order of the clauses and inputs. -/
theorem birthDate_least_height (clauses : List GroundClause) (inputs : List GroundTuple) :
    let p := ofClauses clauses inputs
    p.latestDate = (clauses.flatMap (fun c => c.head :: c.bodyTuples)).toFinset.card ∧
      (∀ t ∈ mentioned clauses, ∃ date, p.birthDate t = .ok date ∧
        (Derivable clauses inputs t →
          IsLeast {height | DerivedAt clauses inputs t height} date ∧ date ≤ p.latestDate) ∧
        (¬ Derivable clauses inputs t → date = p.latestDate)) ∧
      ∀ others given, clauses.Perm others → (∀ t, t ∈ inputs ↔ t ∈ given) →
        (∀ t, (ofClauses others given).birthDate t = p.birthDate t) ∧
        (clausesAt others (ofClauses others given).forwardClauses).Perm
          (clausesAt clauses p.forwardClauses) := by
  intro p
  refine ⟨?_, ?_, ?_⟩
  · have hset : (clauses.flatMap (fun c => c.head :: c.bodyTuples)).toFinset =
        (mentioned clauses).toFinset := by
      ext t
      rw [List.mem_toFinset, List.mem_toFinset, mentioned, Arrival.mem_distinct]
    rw [hset, List.toFinset_card_of_nodup (mentioned_nodup clauses)]
    rfl
  · intro t ht
    refine ⟨_, birthDate_of_mentioned ht, ?_, dateOf_of_not_derivable ht⟩
    intro hderivable
    exact ⟨dateOf_isLeast ht hderivable, dateOf_le clauses inputs t⟩
  · intro others given hclauses hinputs
    refine ⟨?_, forwardClauses_perm hclauses hinputs⟩
    intro t
    by_cases ht : t ∈ mentioned clauses
    · rw [birthDate_of_mentioned ht,
        birthDate_of_mentioned ((mem_mentioned_perm hclauses t).mpr ht),
        dateOf_perm hclauses hinputs ht]
    · have hother : t ∉ mentioned others :=
        fun hmem => ht ((mem_mentioned_perm hclauses t).mp hmem)
      rw [birthDate_of_not_mentioned ht, birthDate_of_not_mentioned hother]

theorem circular_letterB_derivable : Derivable circularClauses [letter "I"] (letter "B") := by
  apply @Derivable.clause _ _ (GroundClause.positive 2 (letter "B") [letter "A"]) (by decide)
  intro s hs
  have hletter : s = letter "A" := by
    simpa [GroundClause.positive, GroundClause.bodyTuples] using hs
  subst s
  exact circular_letterA_derivable

/-- The input `I` gives `A` the date one, and `A` gives `B` the date two, around the circle. -/
theorem circular_letterB_least_height :
    (ofClauses circularClauses [letter "I"]).birthDate (letter "B") = .ok 2 ∧
      IsLeast {height | DerivedAt circularClauses [letter "I"] (letter "B") height} 2 := by
  have hdate : (ofClauses circularClauses [letter "I"]).birthDate (letter "B") = .ok 2 := rfl
  obtain ⟨date, hsame, hleast, _⟩ :=
    (birthDate_least_height circularClauses [letter "I"]).2.1 (letter "B") (by decide)
  cases hdate.symm.trans hsame
  exact ⟨hdate, (hleast circular_letterB_derivable).1⟩

end ClausePruner

end DerivationBelief

import DerivationBelief.Proofs.DatingLevels
import DerivationBelief.Proofs.Pruning
import Mathlib.Tactic

/-!
# The counters and dates of a clause list

What the worklist does with the numbers of a clause list, said about its tuples.  The counter of a
clause holds the different tuples of its body that have not been taken, the dates fall from step to
step, and in the end every clause whose body has been taken dates its head at most one later.  The
worklist ends after a number of steps that is linear in the size of the clauses.
-/

namespace DerivationBelief

namespace Dating

namespace Moment

/-- The date of the number of a tuple. -/
def dateOf (index : ClauseIndex) (m : Moment) (t : GroundTuple) : Nat :=
  m.dating.date (index.tuples.idxOf t)

def HasTaken (index : ClauseIndex) (m : Moment) (t : GroundTuple) : Prop :=
  index.tuples.idxOf t ∈ m.taken

instance (index : ClauseIndex) (m : Moment) (t : GroundTuple) : Decidable (m.HasTaken index t) :=
  inferInstanceAs (Decidable (_ ∈ m.taken))

variable {clauses : List GroundClause} {inputs : List GroundTuple} {m : Moment} {c : Nat}
  {clause : GroundClause}

theorem Sound.pending_eq_card (hsound : m.Sound (ClauseIndex.ofClauses clauses) inputs)
    (hclause : clauses[c]? = some clause) :
    m.dating.pending.getD c 0 =
      (clause.bodyTuples.toFinset.filter
          (fun t => ¬ m.HasTaken (ClauseIndex.ofClauses clauses) t)).card +
        if m.firstVisit ∧ c ∈ m.todo then 1 else 0 := by
  rw [hsound.pending_eq (ClauseIndex.lt_rules_length hclause),
    ClauseIndex.body_ofClauses hclause, List.filter_map, List.length_map,
    Arrival.length_distinct_filter]
  congr 2
  apply Finset.filter_congr
  intro t _
  simp [HasTaken]

theorem Sound.dateOf_head_le (hsound : m.Sound (ClauseIndex.ofClauses clauses) inputs)
    (hend : m.next? (ClauseIndex.ofClauses clauses) = none) (hclause : clause ∈ clauses)
    (hbody : ∀ t ∈ clause.bodyTuples, m.HasTaken (ClauseIndex.ofClauses clauses) t) :
    m.dateOf (ClauseIndex.ofClauses clauses) clause.head ≤
      min ((clause.bodyTuples.map (m.dateOf (ClauseIndex.ofClauses clauses))).foldl max 0 + 1)
        (ClauseIndex.ofClauses clauses).size := by
  obtain ⟨c, hc⟩ := List.mem_iff_getElem?.mp hclause
  have htaken : ∀ b ∈ (ClauseIndex.ofClauses clauses).body c, b ∈ m.taken := by
    intro b hb
    obtain ⟨t, ht, rfl⟩ := (ClauseIndex.mem_body_ofClauses hc).mp hb
    exact hbody t ht
  have hlatest : m.dating.latest ((ClauseIndex.ofClauses clauses).body c) ≤
      (clause.bodyTuples.map (m.dateOf (ClauseIndex.ofClauses clauses))).foldl max 0 := by
    rw [latest_le_iff]
    intro b hb
    obtain ⟨t, ht, rfl⟩ := (ClauseIndex.mem_body_ofClauses hc).mp hb
    exact (ClauseIndex.foldl_max_le_iff.mp le_rfl).2 _ (List.mem_map_of_mem ht)
  have hhead := hsound.date_head_le hend (ClauseIndex.lt_rules_length hc) htaken
  rw [ClauseIndex.head_ofClauses hc] at hhead
  exact hhead.trans (min_le_min_right _ (Nat.succ_le_succ hlatest))

/-- The worklist ends, after at most one step for every tuple, every clause and every different
tuple of its body, in the state that the running worklist ends in; and between two rounds it is in
the state of the running worklist.  At every moment the counter of a clause is the number of
different tuples of its body that have not been taken, and one more while the first visit of the
tuple taken last is still to be counted, so it is positive whenever it is lowered.  No date exceeds
the number of tuples, and none ever increases.  At the end, a clause whose body has been taken dates
its head at most one later than the latest tuple of its body. -/
theorem worklist_ends_counted (clauses : List GroundClause) (inputs : List GroundTuple) :
    let index := ClauseIndex.ofClauses clauses
    (∃ steps last, after? index inputs steps = some last ∧ last.next? index = none ∧
        last.dating = final index inputs ∧
        steps ≤ index.size +
          (clauses.map (fun clause => clause.bodyTuples.toFinset.card + 1)).sum) ∧
      ∀ steps m, after? index inputs steps = some m →
        (m.todo = [] →
          m.dating = run index m.taken.length ((start index inputs).seed index)) ∧
        (∀ c clause, clauses[c]? = some clause →
          m.dating.pending.getD c 0 =
            (clause.bodyTuples.toFinset.filter (fun t => ¬ m.HasTaken index t)).card +
              if m.firstVisit ∧ c ∈ m.todo then 1 else 0) ∧
        (∀ c todo, m.todo = c :: todo → m.firstVisit = true →
          0 < m.dating.pending.getD c 0) ∧
        (∀ t, m.dateOf index t ≤ index.size) ∧
        (∀ later next, steps ≤ later → after? index inputs later = some next →
          ∀ t, next.dateOf index t ≤ m.dateOf index t) ∧
        (m.next? index = none → ∀ clause ∈ clauses,
          (∀ t ∈ clause.bodyTuples, m.HasTaken index t) →
            m.dateOf index clause.head ≤
              min ((clause.bodyTuples.map (m.dateOf index)).foldl max 0 + 1) index.size) := by
  intro index
  have hindex : index.WellFormed := ClauseIndex.ofClauses_wellFormed clauses
  constructor
  · obtain ⟨steps, last, hlast, hend⟩ := exists_end hindex inputs
    refine ⟨steps, last, hlast, hend, dating_eq_final hindex hlast hend, ?_⟩
    rw [← ClauseIndex.sum_length_body]
    exact steps_le hindex hlast
  · intro steps m hm
    have hsound := sound_of_after? hindex hm
    refine ⟨?_, fun c clause hclause => hsound.pending_eq_card hclause, ?_, ?_, ?_, ?_⟩
    · intro htodo
      rw [← roundEnd_eq_run hm, roundEnd_of_todo htodo]
    · exact fun c todo htodo hfirst => hsound.pending_pos htodo hfirst
    · exact fun t => hsound.dating.date_le _
    · exact fun later next hle hnext t => date_le_of_after? hindex hm hle hnext _
    · exact fun hend clause hclause hbody => hsound.dateOf_head_le hend hclause hbody

open ClausePruner (letter)

/-- `C` needs `A` twice and `B`, which `A` derives.  `D` needs `E`, which nothing derives. -/
def waitingClauses : List GroundClause :=
  [GroundClause.positive 0 (letter "C") [letter "A", letter "B", letter "A"],
    GroundClause.positive 1 (letter "B") [letter "A"],
    GroundClause.positive 2 (letter "D") [letter "E"]]

def waitingIndex : ClauseIndex :=
  ClauseIndex.ofClauses waitingClauses

/-- After four steps the input `A` has been taken and is still to be counted for the first clause.
After nine steps `A`, `B` and `C` have been taken, and nothing else waits. -/
theorem waiting_worklist_ends_counted :
    ∃ m last, after? waitingIndex [letter "A"] 4 = some m ∧
      m.todo = [0, 1] ∧ m.firstVisit = true ∧
      0 < m.dating.pending.getD 0 0 ∧
      m.dating.pending.getD 0 0 = ([letter "A", letter "B", letter "A"].toFinset.filter
        (fun t => ¬ m.HasTaken waitingIndex t)).card + 1 ∧
      after? waitingIndex [letter "A"] 9 = some last ∧ last.next? waitingIndex = none ∧
      (∀ t ∈ [letter "A", letter "B", letter "A"], last.HasTaken waitingIndex t) ∧
      (∀ t, last.dateOf waitingIndex t ≤ m.dateOf waitingIndex t) ∧
      last.dateOf waitingIndex (letter "C") ≤
        min (([letter "A", letter "B", letter "A"].map (last.dateOf waitingIndex)).foldl max 0 + 1)
          waitingIndex.size := by
  have hfour : (after? waitingIndex [letter "A"] 4).any
      (fun m => m.todo = [0, 1] ∧ m.firstVisit = true) = true := by decide +kernel
  have hnine : (after? waitingIndex [letter "A"] 9).any
      (fun m => m.next? waitingIndex = none ∧
        ∀ t ∈ [letter "A", letter "B", letter "A"], m.HasTaken waitingIndex t) = true := by
    decide +kernel
  obtain ⟨m, hm, hmoment⟩ := (Option.any_eq_true _ _).mp hfour
  obtain ⟨htodo, hfirst⟩ := of_decide_eq_true hmoment
  obtain ⟨last, hlast, hmoment⟩ := (Option.any_eq_true _ _).mp hnine
  obtain ⟨hend, htaken⟩ := of_decide_eq_true hmoment
  obtain ⟨_, hall⟩ := worklist_ends_counted waitingClauses [letter "A"]
  obtain ⟨_, hcounter, hpositive, _, hfalls, _⟩ := hall 4 m hm
  obtain ⟨_, _, _, _, _, hsettled⟩ := hall 9 last hlast
  have hcount := hcounter 0 _ (List.getElem?_cons_zero)
  rw [if_pos ⟨hfirst, by simp [htodo]⟩] at hcount
  exact ⟨m, last, hm, htodo, hfirst, hpositive 0 [1] htodo hfirst, hcount, hlast, hend, htaken,
    hfalls 9 last (by decide) hlast, hsettled hend _ List.mem_cons_self htaken⟩

end Moment

end Dating

end DerivationBelief

import DerivationBelief.Relevance
import DerivationBelief.Proofs.ClauseIndex
import DerivationBelief.Proofs.Exploration
import Mathlib.Data.List.Sigma
import Mathlib.Tactic

/-!
# The walk over clauses

Walking back over clauses keeps the clauses that have become active and the tuples that wait to be
looked up.  A tuple that waits reaches an observed tuple, and a tuple that does not wait any more
has all of its clauses active.  Every clause puts its body in the queue once, which bounds the
number of steps, so that the walk ends with exactly the clauses whose heads reach an observed tuple.
-/

namespace DerivationBelief

open Relation

variable {clauses : List GroundClause} {observed : List GroundTuple}

/-- Some clause derives the second tuple from a body with the first one. -/
def Supports (clauses : List GroundClause) (s t : GroundTuple) : Prop :=
  ∃ clause ∈ clauses, s ∈ clause.bodyTuples ∧ clause.head = t

/-- An observed tuple is derived from a tuple, step by step. -/
def Matters (clauses : List GroundClause) (observed : List GroundTuple) (s : GroundTuple) : Prop :=
  ∃ t ∈ observed, ReflTransGen (Supports clauses) s t

theorem Matters.of_supports {s t : GroundTuple} (ht : Matters clauses observed t)
    (hstep : Supports clauses s t) : Matters clauses observed s := by
  obtain ⟨u, hu, hchain⟩ := ht
  exact ⟨u, hu, ReflTransGen.head hstep hchain⟩

def bodyAt (clauses : List GroundClause) (c : Nat) : List GroundTuple :=
  (clauses[c]?.map GroundClause.bodyTuples).getD []

@[simp] theorem bodyAt_of_getElem? {c : Nat} {clause : GroundClause}
    (hclause : clauses[c]? = some clause) : bodyAt clauses c = clause.bodyTuples := by
  simp [bodyAt, hclause]

theorem flatMap_bodyAt (clauses : List GroundClause) :
    (List.range clauses.length).flatMap (bodyAt clauses) =
      clauses.flatMap GroundClause.bodyTuples := by
  have hbodies : (List.range clauses.length).map (bodyAt clauses) =
      clauses.map GroundClause.bodyTuples := by
    apply List.ext_getElem
    · simp
    · intro c hc _
      have hlt : c < clauses.length := by simpa using hc
      simp [bodyAt, hlt]
  rw [List.flatMap_def, List.flatMap_def, hbodies]

/-! ## Activating the clauses of a tuple -/

def newClauses (clauses : List GroundClause) (t : GroundTuple) (active : List Nat) : List Nat :=
  (clauses.zipIdx.filter (fun e => e.1.head = t ∧ e.2 ∉ active)).map Prod.snd

theorem mem_newClauses {t : GroundTuple} {active : List Nat} {c : Nat} :
    c ∈ newClauses clauses t active ↔
      (∃ clause, clauses[c]? = some clause ∧ clause.head = t) ∧ c ∉ active := by
  simp only [newClauses, List.mem_map, List.mem_filter, List.mem_zipIdx_iff_getElem?,
    decide_eq_true_iff]
  constructor
  · rintro ⟨e, ⟨hclause, hhead, hnew⟩, rfl⟩
    exact ⟨⟨e.1, hclause, hhead⟩, hnew⟩
  · rintro ⟨⟨clause, hclause, hhead⟩, hnew⟩
    exact ⟨(clause, c), ⟨hclause, hhead, hnew⟩, rfl⟩

theorem newClauses_nodup (t : GroundTuple) (active : List Nat) :
    (newClauses clauses t active).Nodup := by
  have hnodup := List.nodup_zipIdx_map_snd clauses
  exact hnodup.sublist (List.filter_sublist.map Prod.snd)

/-- A clause is looked at once, so clauses that become active do not stop each other. -/
theorem foldl_activate {t : GroundTuple} {entries : List (GroundClause × Nat)}
    (hnodup : (entries.map Prod.snd).Nodup) (active : List Nat) (queue : List GroundTuple) :
    entries.foldl
        (fun (state : List Nat × List GroundTuple) entry =>
          if entry.1.head = t ∧ ¬ state.1.contains entry.2 then
            (state.1 ++ [entry.2], state.2 ++ entry.1.bodyTuples)
          else state) (active, queue) =
      (active ++ (entries.filter (fun e => e.1.head = t ∧ e.2 ∉ active)).map Prod.snd,
        queue ++ (entries.filter (fun e => e.1.head = t ∧ e.2 ∉ active)).flatMap
          (fun e => e.1.bodyTuples)) := by
  induction entries generalizing active queue with
  | nil => simp
  | cons entry entries ih =>
      rw [List.map_cons, List.nodup_cons] at hnodup
      rw [List.foldl_cons]
      by_cases hnew : entry.1.head = t ∧ entry.2 ∉ active
      · have hsame : entries.filter (fun e => e.1.head = t ∧ e.2 ∉ active ++ [entry.2]) =
            entries.filter (fun e => e.1.head = t ∧ e.2 ∉ active) := by
          apply List.filter_congr
          intro e he
          have hne : e.2 ≠ entry.2 := by
            intro heq
            exact hnodup.1 (heq ▸ List.mem_map_of_mem he)
          simp [hne]
        have hkept : entry.1.head = t ∧ ¬ active.contains entry.2 := by simpa using hnew
        rw [if_pos hkept, ih hnodup.2, hsame, List.filter_cons_of_pos (by simpa using hnew)]
        simp
      · have hskipped : ¬ (entry.1.head = t ∧ ¬ active.contains entry.2) := by
          simpa using hnew
        rw [if_neg hskipped, ih hnodup.2, List.filter_cons_of_neg (by simpa using hnew)]

theorem activate_eq (clauses : List GroundClause) (t : GroundTuple) (active : List Nat)
    (queue : List GroundTuple) :
    activate clauses t (active, queue) =
      (active ++ newClauses clauses t active,
        queue ++ (newClauses clauses t active).flatMap (bodyAt clauses)) := by
  have hnodup := List.nodup_zipIdx_map_snd clauses
  have hbodies : (newClauses clauses t active).flatMap (bodyAt clauses) =
      (clauses.zipIdx.filter (fun e => e.1.head = t ∧ e.2 ∉ active)).flatMap
        (fun e => e.1.bodyTuples) := by
    unfold newClauses
    rw [List.flatMap_def, List.flatMap_def, List.map_map]
    congr 1
    apply List.map_congr_left
    intro e he
    exact bodyAt_of_getElem? (List.mem_zipIdx_iff_getElem?.mp (List.mem_of_mem_filter he))
  unfold activate
  rw [foldl_activate hnodup, hbodies]
  rfl

/-! ## The walk -/

/-- What the walk over clauses knows. -/
structure ClauseWalk (clauses : List GroundClause) (observed : List GroundTuple)
    (active : List Nat) (queue : List GroundTuple) : Prop where
  nodup : active.Nodup
  active_matters : ∀ c ∈ active, ∃ clause, clauses[c]? = some clause ∧
    Matters clauses observed clause.head
  queue_matters : ∀ t ∈ queue, Matters clauses observed t
  /-- A tuple that has been queued waits, or all of its clauses are active. -/
  covered : ∀ t, (t ∈ observed ∨ ∃ c ∈ active, t ∈ bodyAt clauses c) →
    t ∈ queue ∨ ∀ c clause, clauses[c]? = some clause → clause.head = t → c ∈ active

namespace ClauseWalk

variable {active : List Nat} {queue rest : List GroundTuple}

theorem start (clauses : List GroundClause) (observed : List GroundTuple) :
    ClauseWalk clauses observed [] observed where
  nodup := List.nodup_nil
  active_matters := by simp
  queue_matters := fun t ht => ⟨t, ht, ReflTransGen.refl⟩
  covered := by
    intro t ht
    simpa using Or.inl ht

theorem step {t : GroundTuple} (hwalk : ClauseWalk clauses observed active (t :: rest)) :
    ClauseWalk clauses observed (active ++ newClauses clauses t active)
      (rest ++ (newClauses clauses t active).flatMap (bodyAt clauses)) where
  nodup := by
    rw [List.nodup_append]
    refine ⟨hwalk.nodup, newClauses_nodup t active, ?_⟩
    intro c hc d hd heq
    exact (mem_newClauses.mp hd).2 (heq ▸ hc)
  active_matters := by
    intro c hc
    rcases List.mem_append.mp hc with hold | hnew
    · exact hwalk.active_matters c hold
    · obtain ⟨⟨clause, hclause, rfl⟩, _⟩ := mem_newClauses.mp hnew
      exact ⟨clause, hclause, hwalk.queue_matters _ List.mem_cons_self⟩
  queue_matters := by
    intro s hs
    rcases List.mem_append.mp hs with hold | hnew
    · exact hwalk.queue_matters s (List.mem_cons_of_mem _ hold)
    · obtain ⟨c, hc, hbody⟩ := List.mem_flatMap.mp hnew
      obtain ⟨⟨clause, hclause, hhead⟩, _⟩ := mem_newClauses.mp hc
      rw [bodyAt_of_getElem? hclause] at hbody
      have hsupports : Supports clauses s t :=
        ⟨clause, List.mem_of_getElem? hclause, hbody, hhead⟩
      exact (hwalk.queue_matters t List.mem_cons_self).of_supports hsupports
  covered := by
    intro s hs
    have hcases : (s ∈ observed ∨ ∃ c ∈ active, s ∈ bodyAt clauses c) ∨
        s ∈ (newClauses clauses t active).flatMap (bodyAt clauses) := by
      rcases hs with hobserved | ⟨c, hc, hbody⟩
      · exact Or.inl (Or.inl hobserved)
      · rcases List.mem_append.mp hc with hold | hnew
        · exact Or.inl (Or.inr ⟨c, hold, hbody⟩)
        · exact Or.inr (List.mem_flatMap.mpr ⟨c, hnew, hbody⟩)
    rcases hcases with hold | hnew
    · rcases hwalk.covered s hold with hqueue | hall
      · rcases List.mem_cons.mp hqueue with rfl | hrest
        -- This is the tuple that has been looked up: its clauses were active or are new.
        · right
          intro c clause hclause hhead
          by_cases hactive : c ∈ active
          · exact List.mem_append_left _ hactive
          · exact List.mem_append_right _
              (mem_newClauses.mpr ⟨⟨clause, hclause, hhead⟩, hactive⟩)
        · exact Or.inl (List.mem_append_left _ hrest)
      · right
        intro c clause hclause hhead
        exact List.mem_append_left _ (hall c clause hclause hhead)
    · exact Or.inl (List.mem_append_right _ hnew)

/-- The bodies of the active clauses are bodies of different clauses. -/
theorem bodies_le (hwalk : ClauseWalk clauses observed active queue) :
    (active.flatMap (bodyAt clauses)).length ≤
      (clauses.flatMap GroundClause.bodyTuples).length := by
  have hsubset : active ⊆ List.range clauses.length := by
    intro c hc
    obtain ⟨clause, hclause, _⟩ := hwalk.active_matters c hc
    exact List.mem_range.mpr (List.getElem?_eq_some_iff.mp hclause).1
  obtain ⟨kept, hperm, hsublist⟩ := hwalk.nodup.subperm hsubset
  rw [← flatMap_bodyAt]
  calc
    (active.flatMap (bodyAt clauses)).length = (kept.flatMap (bodyAt clauses)).length :=
          (hperm.flatMap_right (bodyAt clauses)).length_eq.symm
    _ ≤ ((List.range clauses.length).flatMap (bodyAt clauses)).length :=
          (hsublist.flatMap (bodyAt clauses)).length_le

/-- A walk with enough steps left ends with an empty queue. -/
theorem run {fuel : Nat} (hwalk : ClauseWalk clauses observed active queue)
    (hfuel : queue.length + (clauses.flatMap GroundClause.bodyTuples).length ≤
      fuel + (active.flatMap (bodyAt clauses)).length) :
    ClauseWalk clauses observed (walkClauses clauses fuel (active, queue)) [] := by
  -- A step takes one tuple from the queue and adds as many as the active bodies grow by, so the
  -- bound on the fuel is kept.
  induction fuel generalizing active queue with
  | zero =>
      have hle := hwalk.bodies_le
      have hempty : queue = [] := List.length_eq_zero_iff.mp (by omega)
      subst queue
      exact hwalk
  | succ fuel ih =>
      cases queue with
      | nil => exact hwalk
      | cons t rest =>
          rw [walkClauses, activate_eq]
          apply ih hwalk.step
          simp only [List.length_append, List.flatMap_append, List.length_cons] at hfuel ⊢
          omega

theorem active_of_matters (hwalk : ClauseWalk clauses observed active []) {s : GroundTuple}
    (hs : Matters clauses observed s) :
    ∀ c clause, clauses[c]? = some clause → clause.head = s → c ∈ active := by
  obtain ⟨t, ht, hchain⟩ := hs
  induction hchain using ReflTransGen.head_induction_on with
  | refl => simpa using hwalk.covered t (Or.inl ht)
  | @head s u hstep _ ih =>
      obtain ⟨clause, hclause, hbody, hhead⟩ := hstep
      obtain ⟨c, hc⟩ := List.mem_iff_getElem?.mp hclause
      have hactive := ih c clause hc hhead
      have hqueued : s ∈ bodyAt clauses c := by
        rw [bodyAt_of_getElem? hc]
        exact hbody
      simpa using hwalk.covered s (Or.inr ⟨c, hactive, hqueued⟩)

end ClauseWalk

/-- The closure has exactly the clauses whose heads matter. -/
theorem mem_backwardClosure {c : Nat} :
    c ∈ backwardClosure clauses observed ↔
      ∃ clause, clauses[c]? = some clause ∧ Matters clauses observed clause.head := by
  have hwalk : ClauseWalk clauses observed
      (walkClauses clauses
        (observed.length + (clauses.flatMap GroundClause.bodyTuples).length) ([], observed)) [] :=
    (ClauseWalk.start clauses observed).run (by simp)
  unfold backwardClosure
  rw [List.mem_filter, List.contains_iff_mem]
  constructor
  · rintro ⟨_, hactive⟩
    exact hwalk.active_matters c hactive
  · rintro ⟨clause, hclause, hmatters⟩
    refine ⟨List.mem_range.mpr (List.getElem?_eq_some_iff.mp hclause).1, ?_⟩
    exact hwalk.active_of_matters hmatters c clause hclause rfl

end DerivationBelief

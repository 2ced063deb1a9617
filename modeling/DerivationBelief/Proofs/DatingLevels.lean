import DerivationBelief.Proofs.DatingSteps
import Mathlib.Tactic

/-!
# The worklist takes no tuple twice

The tuples leave the queue in the order of their dates: what was visited is not dated later than the
tuple taken last, and what waits is dated as late or one later.  A rule whose body has been visited
and that uses the tuple taken last dates its head one later than that tuple.  If this is earlier
than before, the head was neither visited nor waiting.

Every tuple is therefore taken at most once, each visit is a first one, and each rule that a round
reaches lowers its counter.  The counters never fall below zero, so they bound the number of steps.
-/

namespace DerivationBelief

namespace Dating

variable {index : ClauseIndex} {s : Dating} {todo : List Nat} {c level : Nat}

/-! ## Levels -/

/-- The queue holds different tuples in the order of their dates, none of them visited, on the level
of the tuple taken last and the next one. -/
structure Levelled (index : ClauseIndex) (level : Nat) (todo : List Nat) (s : Dating) : Prop where
  visited_le : ∀ t ∈ s.visited, s.date t ≤ level
  le_queue : ∀ t ∈ s.queue, level ≤ s.date t
  queue_le : ∀ t ∈ s.queue, s.date t ≤ level + 1
  queue_ascending : s.queue.Pairwise (fun t u => s.date t ≤ s.date u)
  queue_nodup : s.queue.Nodup
  unvisited : ∀ t ∈ s.queue, t ∉ s.visited
  todo_uses : ∀ c ∈ todo, level = 0 ∨ ∃ b ∈ index.body c, b ∈ s.visited ∧ s.date b = level

theorem Levelled.le_latest (hlevel : Levelled index level todo s) (hc : c ∈ todo) :
    level ≤ s.latest (index.body c) := by
  rcases hlevel.todo_uses c hc with rfl | ⟨b, hb, _, rfl⟩
  · exact Nat.zero_le _
  · exact latest_le_iff.mp le_rfl b hb

theorem Levelled.counted (hlevel : Levelled index level (c :: todo) s) (firstVisit : Bool) :
    Levelled index level todo (s.counted firstVisit c) := by
  have htail : Levelled index level todo s :=
    { hlevel with todo_uses := fun d hd => hlevel.todo_uses d (List.mem_cons_of_mem c hd) }
  cases firstVisit <;> exact { htail with }

/-- A rule whose body has been visited dates a head that is neither visited nor waiting. -/
theorem Levelled.redate (hlevel : Levelled index level todo s)
    (hhead : index.head c < s.dates.length) (hearlier : level + 1 < s.date (index.head c)) :
    Levelled index level todo (s.redate (index.head c) (level + 1)) := by
  -- What is visited or waits is dated on this level or the next one, and the head later.
  have hunvisited : index.head c ∉ s.visited := by
    intro hvisited
    have hearly := hlevel.visited_le _ hvisited
    omega
  have hunqueued : index.head c ∉ s.queue := by
    intro hqueued
    have hearly := hlevel.queue_le _ hqueued
    omega
  have hdate : (s.redate (index.head c) (level + 1)).date (index.head c) = level + 1 := by
    rw [date_redate hhead, if_pos rfl]
  have hvisited : ∀ t ∈ s.visited,
      (s.redate (index.head c) (level + 1)).date t = s.date t := by
    intro t ht
    rw [date_redate hhead, if_neg]
    rintro rfl
    exact hunvisited ht
  have hqueued : ∀ t ∈ s.queue,
      (s.redate (index.head c) (level + 1)).date t = s.date t := by
    intro t ht
    rw [date_redate hhead, if_neg]
    rintro rfl
    exact hunqueued ht
  constructor
  case visited_le =>
    intro t ht
    rw [hvisited t ht]
    exact hlevel.visited_le t ht
  case le_queue =>
    intro t ht
    rcases List.mem_append.mp ht with hold | hnew
    · rw [hqueued t hold]
      exact hlevel.le_queue t hold
    · rw [List.mem_singleton.mp hnew, hdate]
      exact Nat.le_succ level
  case queue_le =>
    intro t ht
    rcases List.mem_append.mp ht with hold | hnew
    · rw [hqueued t hold]
      exact hlevel.queue_le t hold
    · rw [List.mem_singleton.mp hnew, hdate]
  case queue_ascending =>
    refine List.pairwise_append.mpr ⟨?_, List.pairwise_singleton _ _, ?_⟩
    · refine hlevel.queue_ascending.imp_of_mem ?_
      intro t u ht hu hle
      rwa [hqueued t ht, hqueued u hu]
    · intro t ht u hu
      rw [List.mem_singleton.mp hu, hdate, hqueued t ht]
      exact hlevel.queue_le t ht
  case queue_nodup =>
    refine List.nodup_append.mpr ⟨hlevel.queue_nodup, List.nodup_singleton _, ?_⟩
    rintro t ht u hu rfl
    exact hunqueued (List.mem_singleton.mp hu ▸ ht)
  case unvisited =>
    intro t ht
    rcases List.mem_append.mp ht with hold | hnew
    · exact hlevel.unvisited t hold
    · rw [List.mem_singleton.mp hnew]
      exact hunvisited
  case todo_uses =>
    intro d hd
    rcases hlevel.todo_uses d hd with hzero | ⟨b, hb, hmem, heq⟩
    · exact Or.inl hzero
    · exact Or.inr ⟨b, hb, hmem, (hvisited b hmem).trans heq⟩

/-- The next tuple of the queue opens its own level. -/
theorem Levelled.pop (hlevel : Levelled index level [] s) {t : Nat} {rest : List Nat}
    (hqueue : s.queue = t :: rest) :
    Levelled index (s.date t) (index.consequents t)
      { s with queue := rest, visited := Arrival.insert s.visited t } := by
  have ht : t ∈ s.queue := by simp [hqueue]
  have hrest : ∀ u ∈ rest, u ∈ s.queue := fun u hu => by simp [hqueue, hu]
  have hascending := hlevel.queue_ascending
  have hnodup := hlevel.queue_nodup
  rw [hqueue, List.pairwise_cons] at hascending
  rw [hqueue, List.nodup_cons] at hnodup
  constructor
  case visited_le =>
    intro u hu
    rcases Arrival.mem_insert.mp hu with hold | rfl
    · exact (hlevel.visited_le u hold).trans (hlevel.le_queue t ht)
    · exact le_rfl
  case le_queue => exact hascending.1
  case queue_le =>
    exact fun u hu => (hlevel.queue_le u (hrest u hu)).trans
      (Nat.succ_le_succ (hlevel.le_queue t ht))
  case queue_ascending => exact hascending.2
  case queue_nodup => exact hnodup.2
  case unvisited =>
    intro u hu hvisited
    rcases Arrival.mem_insert.mp hvisited with hold | rfl
    · exact hlevel.unvisited u (hrest u hu) hold
    · exact hnodup.1 hu
  case todo_uses =>
    intro c hc
    exact Or.inr ⟨t, (index.mem_consequents.mp hc).2, Arrival.mem_insert.mpr (Or.inr rfl), rfl⟩

theorem start_levelled (index : ClauseIndex) (inputs : List GroundTuple) (todo : List Nat) :
    Levelled index 0 todo (start index inputs) := by
  have hzero : ∀ t ∈ (start index inputs).queue, (start index inputs).date t = 0 := by
    intro t ht
    have hlength := (start_invariant index inputs).dates_length
    obtain ⟨hlt, hdate⟩ : t < index.size ∧ (start index inputs).dates.getD t 1 = 0 := by
      simpa [start] using ht
    rw [← hlength] at hlt
    unfold Dating.date
    rwa [List.getD_eq_getElem _ _ hlt] at hdate ⊢
  constructor
  case visited_le => exact fun t ht => absurd ht List.not_mem_nil
  case le_queue => exact fun t _ => Nat.zero_le _
  case queue_le => exact fun t ht => (hzero t ht).le.trans (Nat.zero_le _)
  case queue_ascending =>
    apply List.pairwise_of_forall_mem_list
    intro t ht u _
    rw [hzero t ht]
    exact Nat.zero_le _
  case queue_nodup => exact List.nodup_range.filter _
  case unvisited => exact fun t _ => List.not_mem_nil
  case todo_uses => exact fun _ _ => Or.inl rfl

namespace Moment

variable {inputs : List GroundTuple} {m next : Moment} {steps : Nat}

theorem Sound.levelled_reached (hindex : index.WellFormed) (hsound : m.Sound index inputs)
    (htodo : m.todo = c :: todo) (hlevel : Levelled index level m.todo m.dating) :
    Levelled index level todo (m.reached index c todo).dating := by
  rw [htodo] at hlevel
  have hcounted := hlevel.counted m.firstVisit
  unfold Moment.reached
  rcases hsound.reach_cases htodo with hskip | ⟨hbody, hearlier, hredate⟩
  · rwa [hskip]
  · -- The tuple taken last is the latest of the body.
    have hlatest : m.dating.latest (index.body c) = level := by
      apply le_antisymm
      · exact latest_le_iff.mpr (fun b hb => hlevel.visited_le b (hbody b hb))
      · exact hlevel.le_latest List.mem_cons_self
    have hhead := hsound.head_lt hindex htodo
    rw [hredate, hlatest]
    rw [hlatest] at hearlier
    exact hcounted.redate (by simpa using hhead) (by simpa using hearlier)

theorem exists_levelled (hindex : index.WellFormed)
    (hafter : after? index inputs steps = some m) :
    ∃ level, Levelled index level m.todo m.dating := by
  refine after?_induction (P := fun _ m => ∃ level, Levelled index level m.todo m.dating)
    ⟨0, start_levelled index inputs _⟩ ?_ hafter
  rintro _ m next hm ⟨level, hlevel⟩ hstep
  cases hstep with
  | reach htodo =>
      exact ⟨level, (sound_of_after? hindex hm).levelled_reached hindex htodo hlevel⟩
  | @take t rest htodo hqueue =>
      rw [htodo] at hlevel
      exact ⟨m.dating.date t, hlevel.pop hqueue⟩

/-- A tuple that waits has not been taken before. -/
theorem not_taken_of_queue (hindex : index.WellFormed)
    (hafter : after? index inputs steps = some m) {t : Nat} (ht : t ∈ m.dating.queue) :
    t ∉ m.taken := by
  obtain ⟨level, hlevel⟩ := exists_levelled hindex hafter
  rw [(sound_of_after? hindex hafter).taken_iff t]
  exact hlevel.unvisited t ht

/-- No tuple is taken from the queue twice. -/
theorem taken_nodup (hindex : index.WellFormed) (hafter : after? index inputs steps = some m) :
    m.taken.Nodup := by
  refine after?_induction (P := fun _ m => m.taken.Nodup) List.nodup_nil ?_ hafter
  intro _ m next hm hnodup hstep
  cases hstep with
  | reach => exact hnodup
  | @take t rest _ hqueue =>
      refine List.nodup_append.mpr ⟨hnodup, List.nodup_singleton _, ?_⟩
      rintro u hu v hv rfl
      rw [List.mem_singleton.mp hv] at hu
      exact not_taken_of_queue hindex hm (by simp [hqueue]) hu

theorem length_taken_le (hindex : index.WellFormed)
    (hafter : after? index inputs steps = some m) : m.taken.length ≤ index.size := by
  have hrange : m.taken ⊆ List.range index.size :=
    fun t ht => List.mem_range.mpr ((sound_of_after? hindex hafter).taken_lt t ht)
  simpa using (taken_nodup hindex hafter).length_le_of_subset hrange

/-! ## The number of steps -/

theorem sum_counted (hc : c < s.pending.length) (hpos : 0 < s.pending.getD c 0) :
    (s.counted true c).pending.sum + 1 = s.pending.sum := by
  have hset : (s.counted true c).pending = s.pending.set c (s.pending[c] - 1) :=
    List.modify_eq_set_get _ hc
  have hsum : (s.pending.set c (s.pending[c] - 1)).sum + s.pending[c] =
      s.pending.sum + (s.pending[c] - 1) := sum_set_add hc
  rw [List.getD_eq_getElem _ _ hc] at hpos
  rw [hset]
  omega

/-- The rules that are still to be reached at most: a first visit lowers the counter of each rule
that it reaches, and the other rules are those tried before the first round. -/
def unreached (m : Moment) : Nat :=
  m.dating.pending.sum + if m.firstVisit then 0 else m.todo.length

theorem Sound.unreached_reached (hsound : m.Sound index inputs) (htodo : m.todo = c :: todo) :
    (m.reached index c todo).unreached + 1 = m.unreached := by
  unfold unreached
  simp only [Moment.reached, pending_reach, htodo, List.length_cons]
  by_cases hfirst : m.firstVisit = true
  · have hc : c < m.dating.pending.length := by
      rw [hsound.dating.pending_length]
      exact hsound.todo_lt c (by simp [htodo])
    have hlower := sum_counted hc (hsound.pending_pos htodo hfirst)
    simpa [hfirst] using hlower
  · simp [hfirst, Dating.counted, Nat.add_assoc]

theorem unreached_took (htodo : m.todo = []) {t : Nat} (hnew : t ∉ m.dating.visited)
    (rest : List Nat) : (m.took index t rest).unreached = m.unreached := by
  simp [unreached, Moment.took, htodo, hnew]

/-- Every step reaches a rule or takes a tuple. -/
theorem steps_accounted (hindex : index.WellFormed)
    (hafter : after? index inputs steps = some m) :
    steps + m.unreached =
      (index.rules.map (fun rule => rule.body.length + 1)).sum + m.taken.length := by
  refine after?_induction (P := fun steps m => steps + m.unreached =
    (index.rules.map (fun rule => rule.body.length + 1)).sum + m.taken.length) ?_ ?_ hafter
  · simp [unreached, first, start, List.sum_map_add]
  · intro steps m next hm hcount hstep
    have hsound := sound_of_after? hindex hm
    cases hstep with
    | @reach c todo htodo =>
        have hlower := hsound.unreached_reached htodo
        simp only [Moment.reached] at hlower ⊢
        omega
    | @take t rest htodo hqueue =>
        have hnew : t ∉ m.dating.visited := by
          rw [← hsound.taken_iff]
          exact not_taken_of_queue hindex hm (by simp [hqueue])
        rw [unreached_took htodo hnew]
        simp only [Moment.took, List.length_append, List.length_singleton]
        omega

theorem steps_le (hindex : index.WellFormed) (hafter : after? index inputs steps = some m) :
    steps ≤ index.size + (index.rules.map (fun rule => rule.body.length + 1)).sum := by
  have hcount := steps_accounted hindex hafter
  have htaken := length_taken_le hindex hafter
  omega

/-- The worklist ends. -/
theorem exists_end (hindex : index.WellFormed) (inputs : List GroundTuple) :
    ∃ steps last, after? index inputs steps = some last ∧ last.next? index = none := by
  by_contra! hendless
  have hgoes : ∀ steps, ∃ m, after? index inputs steps = some m := by
    intro steps
    induction steps with
    | zero => exact ⟨_, rfl⟩
    | succ steps ih =>
        obtain ⟨m, hm⟩ := ih
        obtain ⟨next, hnext⟩ := Option.ne_none_iff_exists'.mp (hendless steps m hm)
        exact ⟨next, Option.bind_eq_some_iff.mpr ⟨m, hm, hnext⟩⟩
  obtain ⟨m, hm⟩ := hgoes
    (index.size + (index.rules.map (fun rule => rule.body.length + 1)).sum + 1)
  exact absurd (steps_le hindex hm) (by omega)

end Moment

end Dating

end DerivationBelief

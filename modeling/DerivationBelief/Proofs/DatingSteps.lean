import DerivationBelief.Proofs.BirthDates
import Mathlib.Tactic

/-!
# The worklist of birth dates, step by step

A round of the worklist takes one tuple from the queue and reaches the rules that use it, one after
the other.  Before the first round every rule is tried once, which dates the heads of the empty
bodies.  A moment is the worklist between two such steps, with the tuples that were taken so far.

A step dates at most one tuple, and earlier than before.  The counter of a rule holds the tuples of
its body that were not taken yet, and one more while the tuple taken last has still to be counted.
When a round is over, the moment is the state of the running worklist after as many rounds.
-/

namespace DerivationBelief

namespace Dating

variable {index : ClauseIndex} {given : Nat → Prop} {s : Dating} {todo : List Nat} {c : Nat}

/-! ## What reaching a rule does -/

@[simp] theorem pending_relax (index : ClauseIndex) (s : Dating) (c : Nat) :
    (s.relax index c).pending = s.pending := by
  unfold relax
  dsimp only
  split <;> rfl

@[simp] theorem pending_reach (index : ClauseIndex) (firstVisit : Bool) (s : Dating) (c : Nat) :
    (s.reach index firstVisit c).pending = (s.counted firstVisit c).pending := by
  rw [reach_eq]
  split
  · exact pending_relax _ _ _
  · rfl

/-- Reaching a rule does no more than count the visit, unless its body has been visited and dates
its head earlier. -/
theorem Invariant.reach_cases {firstVisit : Bool} (hc : c < index.rules.length)
    (hnew : c ∉ todo)
    (hinv : Invariant index given (if firstVisit then c :: todo else []) (c :: todo) s) :
    s.reach index firstVisit c = s.counted firstVisit c ∨
      (∀ b ∈ index.body c, b ∈ s.visited) ∧
        s.latest (index.body c) + 1 < s.date (index.head c) ∧
        s.reach index firstVisit c =
          (s.counted firstVisit c).redate (index.head c) (s.latest (index.body c) + 1) := by
  have hcounted := hinv.counted
  have hdue : c ∉ (if firstVisit then todo else []) := by
    cases firstVisit <;> simp [hnew]
  rw [reach_eq]
  by_cases hdone : (s.counted firstVisit c).pending.getD c 0 = 0
  · rw [if_pos hdone]
    rcases relax_cases index (hcounted.date_le (index.head c)) with
      ⟨hearlier, hrelax⟩ | ⟨_, hrelax⟩
    · right
      have hbody := (hcounted.pending_eq_zero_iff hc hdue).mp hdone
      simp only [counted_visited, counted_latest, counted_date] at hbody hearlier hrelax
      exact ⟨hbody, hearlier, hrelax⟩
    · exact Or.inl hrelax
  · exact Or.inl (if_neg hdone)

/-! ## Moments -/

/-- The worklist between two of its smallest steps. -/
structure Moment where
  dating : Dating
  /-- The tuples taken from the queue so far, the latest at the end. -/
  taken : List Nat
  /-- Whether the tuple taken last had not been taken before. -/
  firstVisit : Bool
  /-- The rules that the round has still to reach. -/
  todo : List Nat
deriving DecidableEq, Repr

namespace Moment

/-- Every rule is tried once before a tuple is taken. -/
def first (index : ClauseIndex) (inputs : List GroundTuple) : Moment :=
  ⟨start index inputs, [], false, List.range index.rules.length⟩

def reached (index : ClauseIndex) (m : Moment) (c : Nat) (todo : List Nat) : Moment :=
  { m with dating := m.dating.reach index m.firstVisit c, todo }

def took (index : ClauseIndex) (m : Moment) (t : Nat) (rest : List Nat) : Moment where
  dating := { m.dating with queue := rest, visited := Arrival.insert m.dating.visited t }
  taken := m.taken ++ [t]
  firstVisit := !m.dating.visited.contains t
  todo := index.consequents t

/-- The next rule of the round is reached, or else the next tuple is taken. -/
def next? (index : ClauseIndex) (m : Moment) : Option Moment :=
  match m.todo, m.dating.queue with
  | c :: todo, _ => some (m.reached index c todo)
  | [], t :: rest => some (m.took index t rest)
  | [], [] => none

/-- The moment after some number of steps, if the worklist has not ended before. -/
def after? (index : ClauseIndex) (inputs : List GroundTuple) : Nat → Option Moment
  | 0 => some (first index inputs)
  | steps + 1 => (after? index inputs steps).bind (next? index)

variable {inputs : List GroundTuple} {m next : Moment} {steps : Nat}

/-- The two kinds of step. -/
inductive Step (index : ClauseIndex) (m : Moment) : Moment → Prop
  | reach {c : Nat} {todo : List Nat} : m.todo = c :: todo → Step index m (m.reached index c todo)
  | take {t : Nat} {rest : List Nat} : m.todo = [] → m.dating.queue = t :: rest →
      Step index m (m.took index t rest)

theorem step_of_next? (hnext : m.next? index = some next) : Step index m next := by
  unfold next? at hnext
  split at hnext
  next c todo htodo =>
    cases hnext
    exact Step.reach htodo
  next t rest htodo hqueue =>
    cases hnext
    exact Step.take htodo hqueue
  next => cases hnext

theorem next?_eq_none_iff : m.next? index = none ↔ m.todo = [] ∧ m.dating.queue = [] := by
  unfold next?
  split <;> simp_all

theorem step_of_after? (hafter : after? index inputs (steps + 1) = some next) :
    ∃ m, after? index inputs steps = some m ∧ Step index m next := by
  obtain ⟨m, hm, hnext⟩ := Option.bind_eq_some_iff.mp hafter
  exact ⟨m, hm, step_of_next? hnext⟩

/-- What holds at first and is kept by every step holds at every moment. -/
theorem after?_induction {P : Nat → Moment → Prop} (hfirst : P 0 (first index inputs))
    (hstep : ∀ steps m next, after? index inputs steps = some m → P steps m →
      Step index m next → P (steps + 1) next)
    (hafter : after? index inputs steps = some m) : P steps m := by
  induction steps generalizing m with
  | zero =>
      cases hafter
      exact hfirst
  | succ steps ih =>
      obtain ⟨before, hbefore, hlast⟩ := step_of_after? hafter
      exact hstep steps before m hbefore (ih hbefore) hlast

/-! ## What is known at every moment -/

/-- The knowledge of the worklist about the dates, the rules of the round without repetition, and
the visited tuples as those that were taken. -/
structure Sound (index : ClauseIndex) (inputs : List GroundTuple) (m : Moment) : Prop where
  dating : Invariant index (index.Given inputs) (if m.firstVisit then m.todo else []) m.todo
    m.dating
  todo_nodup : m.todo.Nodup
  todo_lt : ∀ c ∈ m.todo, c < index.rules.length
  taken_iff : ∀ t, t ∈ m.taken ↔ t ∈ m.dating.visited
  taken_lt : ∀ t ∈ m.taken, t < index.size

theorem first_sound (index : ClauseIndex) (inputs : List GroundTuple) :
    (first index inputs).Sound index inputs where
  dating := { start_invariant index inputs with
    settled := fun _ hc _ => Or.inl (List.mem_range.mpr hc) }
  todo_nodup := List.nodup_range
  todo_lt := fun _ hc => List.mem_range.mp hc
  taken_iff := fun _ => Iff.rfl
  taken_lt := fun _ ht => absurd ht List.not_mem_nil

theorem Sound.head_lt (hindex : index.WellFormed) (hsound : m.Sound index inputs)
    (htodo : m.todo = c :: todo) : index.head c < m.dating.dates.length := by
  rw [hsound.dating.dates_length]
  exact hindex.head_lt c (hsound.todo_lt c (by simp [htodo]))

theorem Sound.reach_cases (hsound : m.Sound index inputs) (htodo : m.todo = c :: todo) :
    m.dating.reach index m.firstVisit c = m.dating.counted m.firstVisit c ∨
      (∀ b ∈ index.body c, b ∈ m.dating.visited) ∧
        m.dating.latest (index.body c) + 1 < m.dating.date (index.head c) ∧
        m.dating.reach index m.firstVisit c = (m.dating.counted m.firstVisit c).redate
          (index.head c) (m.dating.latest (index.body c) + 1) := by
  have hinv := hsound.dating
  have hnodup := hsound.todo_nodup
  rw [htodo] at hinv hnodup
  exact hinv.reach_cases (hsound.todo_lt c (by simp [htodo])) (List.nodup_cons.mp hnodup).1

theorem Sound.visited_reach (hsound : m.Sound index inputs) (htodo : m.todo = c :: todo) :
    (m.reached index c todo).dating.visited = m.dating.visited := by
  unfold reached
  rcases hsound.reach_cases htodo with hcounted | ⟨_, _, hredated⟩
  · rw [hcounted, counted_visited]
  · rw [hredated]
    exact counted_visited _ _ _

theorem Sound.reached (hindex : index.WellFormed) (hsound : m.Sound index inputs)
    (htodo : m.todo = c :: todo) : (m.reached index c todo).Sound index inputs := by
  have hvisited := hsound.visited_reach htodo
  have hinv := hsound.dating
  have hnodup := hsound.todo_nodup
  have hlt := hsound.todo_lt
  rw [htodo] at hinv hnodup hlt
  constructor
  case dating =>
    exact (hinv.reach hindex (hlt c List.mem_cons_self) (List.nodup_cons.mp hnodup).1).1
  case todo_nodup => exact (List.nodup_cons.mp hnodup).2
  case todo_lt => exact fun d hd => hlt d (List.mem_cons_of_mem _ hd)
  case taken_iff =>
    intro t
    rw [hvisited]
    exact hsound.taken_iff t
  case taken_lt => exact hsound.taken_lt

theorem Sound.took (hindex : index.WellFormed) (hsound : m.Sound index inputs)
    (htodo : m.todo = []) {t : Nat} {rest : List Nat} (hqueue : m.dating.queue = t :: rest) :
    (m.took index t rest).Sound index inputs := by
  have hinv : Invariant index (index.Given inputs) [] [] m.dating := by
    simpa [htodo] using hsound.dating
  constructor
  case dating => exact hinv.pop hindex hqueue
  case todo_nodup => exact index.ruleNumbers_nodup (fun _ rule => rule.body.contains t)
  case todo_lt => exact fun d hd => (index.mem_consequents.mp hd).1
  case taken_iff =>
    intro u
    simp only [Moment.took, List.mem_append, List.mem_singleton, Arrival.mem_insert,
      hsound.taken_iff u]
  case taken_lt =>
    intro u hu
    rcases List.mem_append.mp hu with hold | hnew
    · exact hsound.taken_lt u hold
    · rw [List.mem_singleton.mp hnew]
      exact hinv.queue_lt t (by simp [hqueue])

theorem Sound.step (hindex : index.WellFormed) (hsound : m.Sound index inputs)
    (hstep : Step index m next) : next.Sound index inputs := by
  cases hstep with
  | reach htodo => exact hsound.reached hindex htodo
  | take htodo hqueue => exact hsound.took hindex htodo hqueue

theorem sound_of_after? (hindex : index.WellFormed)
    (hafter : after? index inputs steps = some m) : m.Sound index inputs :=
  after?_induction (P := fun _ m => m.Sound index inputs) (first_sound index inputs)
    (fun _ _ _ _ hsound hstep => hsound.step hindex hstep) hafter

/-! ## Counters -/

/-- A counter holds the tuples of the body that were not taken yet, and one more while the tuple
taken last is still to be counted. -/
theorem Sound.pending_eq (hsound : m.Sound index inputs) (hc : c < index.rules.length) :
    m.dating.pending.getD c 0 =
      ((index.body c).filter (fun b => !m.taken.contains b)).length +
        if m.firstVisit ∧ c ∈ m.todo then 1 else 0 := by
  have huntaken : (index.body c).filter (fun b => !m.dating.visited.contains b) =
      (index.body c).filter (fun b => !m.taken.contains b) := by
    apply List.filter_congr
    intro b _
    simp only [List.contains_eq_mem, hsound.taken_iff b]
  have hdue : (if m.firstVisit then m.todo else []).count c =
      if m.firstVisit ∧ c ∈ m.todo then 1 else 0 := by
    cases m.firstVisit with
    | false => simp
    | true => simp [hsound.todo_nodup.count]
  rw [hsound.dating.pending_eq c hc, huntaken, hdue]

theorem Sound.pending_pos (hsound : m.Sound index inputs) (htodo : m.todo = c :: todo)
    (hfirst : m.firstVisit = true) : 0 < m.dating.pending.getD c 0 := by
  have hc : c ∈ m.todo := by simp [htodo]
  rw [hsound.pending_eq (hsound.todo_lt c hc), if_pos ⟨hfirst, hc⟩]
  exact Nat.succ_pos _

/-! ## Dates -/

theorem Sound.date_step_le (hindex : index.WellFormed) (hsound : m.Sound index inputs)
    (hstep : Step index m next) (t : Nat) : next.dating.date t ≤ m.dating.date t := by
  cases hstep with
  | take => exact le_rfl
  | @reach c _ htodo =>
      have hhead := hsound.head_lt hindex htodo
      unfold Moment.reached
      rcases hsound.reach_cases htodo with hcounted | ⟨_, hearlier, hredated⟩
      · rw [hcounted, counted_date]
      · rw [hredated]
        refine (date_redate_le (by simpa using hhead) ?_ t).trans_eq (counted_date _ _ _ t)
        simpa using hearlier.le

/-- No date ever increases. -/
theorem date_le_of_after? (hindex : index.WellFormed)
    (hafter : after? index inputs steps = some m) {later : Nat} (hle : steps ≤ later)
    (hlater : after? index inputs later = some next) (t : Nat) :
    next.dating.date t ≤ m.dating.date t := by
  induction hle generalizing next with
  | refl =>
      cases hafter.symm.trans hlater
      exact le_rfl
  | step _ ih =>
      obtain ⟨before, hbefore, hlast⟩ := step_of_after? hlater
      have hsound := sound_of_after? hindex hbefore
      exact (hsound.date_step_le hindex hlast t).trans (ih hbefore)

/-- At the end a rule whose body was taken dates its head at most one later than the body. -/
theorem Sound.date_head_le (hsound : m.Sound index inputs) (hend : m.next? index = none)
    (hc : c < index.rules.length) (hbody : ∀ b ∈ index.body c, b ∈ m.taken) :
    m.dating.date (index.head c) ≤ min (m.dating.latest (index.body c) + 1) index.size := by
  obtain ⟨htodo, hqueue⟩ := next?_eq_none_iff.mp hend
  have hsettled := hsound.dating.settled c hc fun b hb =>
    ⟨(hsound.taken_iff b).mp (hbody b hb), by simp [hqueue]⟩
  rw [htodo] at hsettled
  exact le_min (hsettled.resolve_left List.not_mem_nil) (hsound.dating.date_le _)

end Moment

/-! ## Rounds of the running worklist -/

theorem run_of_empty {fuel : Nat} (hempty : s.queue = []) : run index fuel s = s := by
  cases fuel with
  | zero => rfl
  | succ fuel => simp [run, hempty]

theorem run_add (first more : Nat) (s : Dating) :
    run index (first + more) s = run index more (run index first s) := by
  induction first generalizing s with
  | zero => simp [run]
  | succ first ih =>
      rw [Nat.succ_add]
      cases hqueue : s.queue with
      | nil => rw [run_of_empty hqueue, run_of_empty hqueue, run_of_empty hqueue]
      | cons t rest =>
          simp only [run, hqueue]
          exact ih _

/-- A run with more rounds goes on from where the shorter one stopped. -/
theorem run_succ {rounds t : Nat} {rest : List Nat}
    (hqueue : (run index rounds s).queue = t :: rest) :
    run index (rounds + 1) s = visit index { run index rounds s with queue := rest } t := by
  rw [run_add]
  simp [run, hqueue]

theorem run_eq_run {few many : Nat} (hfew : (run index few s).queue = [])
    (hmany : (run index many s).queue = []) : run index few s = run index many s := by
  rcases Nat.le_total few many with hle | hle
  · obtain ⟨more, rfl⟩ := Nat.exists_eq_add_of_le hle
    rw [run_add, run_of_empty hfew]
  · obtain ⟨more, rfl⟩ := Nat.exists_eq_add_of_le hle
    rw [run_add, run_of_empty hmany]

theorem reach_false_of_pending (hpending : s.pending.getD c 0 = (index.body c).length) :
    s.reach index false c = if (index.body c).isEmpty then s.relax index c else s := by
  unfold reach
  simp only [Bool.false_eq_true, if_false, hpending, List.length_eq_zero_iff, List.isEmpty_iff]

theorem foldl_reach_false {cs : List Nat}
    (hpending : ∀ c ∈ cs, s.pending.getD c 0 = (index.body c).length) :
    cs.foldl (reach index false) s =
      (cs.filter (fun c => (index.body c).isEmpty)).foldl (relax index) s := by
  induction cs generalizing s with
  | nil => rfl
  | cons c cs ih =>
      rw [List.forall_mem_cons] at hpending
      rw [List.foldl_cons, reach_false_of_pending hpending.1]
      by_cases hbody : (index.body c).isEmpty
      · rw [if_pos hbody, List.filter_cons, if_pos hbody, List.foldl_cons]
        exact ih (by simpa using hpending.2)
      · rw [if_neg hbody, List.filter_cons, if_neg hbody]
        exact ih hpending.2

/-- Trying every rule before the first round tries those with an empty body. -/
theorem foldl_reach_eq_seed
    (hpending : ∀ c < index.rules.length, s.pending.getD c 0 = (index.body c).length) :
    (List.range index.rules.length).foldl (reach index false) s = s.seed index := by
  have hempty : index.ruleNumbers (fun _ rule => rule.body.isEmpty) =
      (List.range index.rules.length).filter (fun c => (index.body c).isEmpty) := by
    apply List.Pairwise.eq_of_mem_iff (index.ruleNumbers_ascending _)
      (List.pairwise_lt_range.filter _)
    intro c
    rw [mem_emptyBodies, List.mem_filter, List.mem_range, List.isEmpty_iff]
  rw [foldl_reach_false (fun c hc => hpending c (List.mem_range.mp hc)), ← hempty]
  rfl

namespace Moment

variable {inputs : List GroundTuple} {m next : Moment} {steps : Nat}

/-- The worklist when the rules of the round have been reached. -/
def roundEnd (index : ClauseIndex) (m : Moment) : Dating :=
  m.todo.foldl (Dating.reach index m.firstVisit) m.dating

theorem roundEnd_of_todo (htodo : m.todo = []) : m.roundEnd index = m.dating := by
  simp [roundEnd, htodo]

theorem roundEnd_first (index : ClauseIndex) (inputs : List GroundTuple) :
    (first index inputs).roundEnd index = (start index inputs).seed index := by
  apply foldl_reach_eq_seed
  intro c hc
  simp [first, start, List.getD_eq_getElem?_getD, index.rule_of_lt hc]

theorem roundEnd_reached (htodo : m.todo = c :: todo) :
    (m.reached index c todo).roundEnd index = m.roundEnd index := by
  unfold roundEnd
  rw [htodo]
  rfl

/-- The round that is under way ends as the running worklist does after as many rounds. -/
theorem roundEnd_eq_run (hafter : after? index inputs steps = some m) :
    m.roundEnd index = run index m.taken.length ((start index inputs).seed index) := by
  refine after?_induction (P := fun _ m => m.roundEnd index =
    run index m.taken.length ((start index inputs).seed index)) ?_ ?_ hafter
  · exact roundEnd_first index inputs
  · intro _ m next _ hrun hstep
    cases hstep with
    | reach htodo =>
        rw [roundEnd_reached htodo]
        exact hrun
    | @take t rest htodo hqueue =>
        rw [roundEnd_of_todo htodo] at hrun
        have htaken : (m.took index t rest).taken.length = m.taken.length + 1 := by
          simp [Moment.took]
        rw [hrun] at hqueue
        rw [htaken, run_succ hqueue, ← hrun]
        rfl

/-- Where the steps end, the running worklist has ended as well. -/
theorem dating_eq_final (hindex : index.WellFormed)
    (hafter : after? index inputs steps = some m) (hend : m.next? index = none) :
    m.dating = final index inputs := by
  obtain ⟨htodo, hqueue⟩ := next?_eq_none_iff.mp hend
  have hrun := roundEnd_eq_run hafter
  rw [roundEnd_of_todo htodo] at hrun
  rw [hrun]
  exact run_eq_run (hrun ▸ hqueue) (final_invariant hindex inputs).2

end Moment

end Dating

end DerivationBelief

import DerivationBelief.BirthDates
import DerivationBelief.Proofs.DerivationHeight
import Mathlib.Data.List.GetD
import Mathlib.Tactic

/-!
# The worklist finds the least heights

While the worklist runs, every date below the number of tuples is supported by an input or by a rule
whose body is dated earlier, and a rule whose body has been visited and is not queued again dates
its head at most one later than its body.  The sum of the dates and the length of the queue fall
with every step, so the queue is empty in the end.  Then the dates are the least heights.
-/

namespace DerivationBelief

namespace Dating

variable {index : ClauseIndex} {given : Nat → Prop} {s : Dating} {due todo : List Nat} {c : Nat}

theorem latest_le_iff {body : List Nat} {bound : Nat} :
    s.latest body ≤ bound ↔ ∀ b ∈ body, s.date b ≤ bound := by
  simp [latest, ClauseIndex.foldl_max_le_iff]

theorem latest_mono {later : Dating} {body : List Nat}
    (hle : ∀ b ∈ body, later.date b ≤ s.date b) : later.latest body ≤ s.latest body := by
  rw [latest_le_iff]
  intro b hb
  exact (hle b hb).trans (latest_le_iff.mp le_rfl b hb)

theorem latest_congr {later : Dating} {body : List Nat}
    (heq : ∀ b ∈ body, later.date b = s.date b) : later.latest body = s.latest body :=
  le_antisymm (latest_mono (fun b hb => (heq b hb).le))
    (latest_mono (fun b hb => (heq b hb).ge))

/-- What the worklist knows of the dates while some rules are still to be tried and, for some, the
visit of a tuple is still to be counted. -/
structure Invariant (index : ClauseIndex) (given : Nat → Prop) (due todo : List Nat)
    (s : Dating) : Prop where
  dates_length : s.dates.length = index.size
  pending_length : s.pending.length = index.rules.length
  date_le : ∀ t, s.date t ≤ index.size
  queue_lt : ∀ t ∈ s.queue, t < index.size
  date_eq_zero_iff : ∀ t < index.size, s.date t = 0 ↔ given t
  supported : ∀ t, s.date t < index.size → given t ∨
    ∃ c < index.rules.length, index.head c = t ∧ s.latest (index.body c) + 1 ≤ s.date t
  known : ∀ t, s.date t < index.size → t ∈ s.visited ∨ t ∈ s.queue
  settled : ∀ c < index.rules.length, (∀ b ∈ index.body c, b ∈ s.visited ∧ b ∉ s.queue) →
    c ∈ todo ∨ s.date (index.head c) ≤ s.latest (index.body c) + 1
  pending_eq : ∀ c < index.rules.length, s.pending.getD c 0 =
    ((index.body c).filter (fun b => !s.visited.contains b)).length + due.count c

/-! ## One rule -/

def redate (s : Dating) (t date : Nat) : Dating :=
  { s with dates := s.dates.set t date, queue := s.queue ++ [t] }

theorem date_redate {t u date : Nat} (ht : t < s.dates.length) :
    (s.redate t date).date u = if u = t then date else s.date u := by
  unfold redate Dating.date
  by_cases heq : u = t
  · subst u
    simp [ht]
  · simp [heq, Ne.symm heq, List.getD_eq_getElem?_getD]

theorem date_redate_le {t date : Nat} (ht : t < s.dates.length) (hearlier : date ≤ s.date t)
    (u : Nat) : (s.redate t date).date u ≤ s.date u := by
  rw [date_redate ht]
  split
  next heq =>
    subst u
    exact hearlier
  next => exact le_rfl

theorem relax_cases (index : ClauseIndex) (hle : s.date (index.head c) ≤ index.size) :
    (s.latest (index.body c) + 1 < s.date (index.head c) ∧
        s.relax index c = s.redate (index.head c) (s.latest (index.body c) + 1)) ∨
      (s.date (index.head c) ≤ s.latest (index.body c) + 1 ∧ s.relax index c = s) := by
  unfold Dating.relax
  by_cases hearlier : s.latest (index.body c) + 1 < s.date (index.head c)
  · left
    have hcandidate : min (s.latest (index.body c) + 1) index.size =
        s.latest (index.body c) + 1 := by omega
    simp only [hcandidate, if_pos hearlier]
    exact ⟨hearlier, rfl⟩
  · right
    have hlate : ¬ min (s.latest (index.body c) + 1) index.size < s.date (index.head c) := by
      omega
    simp only [if_neg hlate]
    exact ⟨by omega, trivial⟩

/-- A rule that dates its head earlier keeps the invariant and is settled. -/
theorem Invariant.redate (hindex : index.WellFormed) (hc : c < index.rules.length)
    (hinv : Invariant index given due (c :: todo) s)
    (hearlier : s.latest (index.body c) + 1 < s.date (index.head c)) :
    Invariant index given due todo
      (s.redate (index.head c) (s.latest (index.body c) + 1)) := by
  have hhead : index.head c < s.dates.length := by
    rw [hinv.dates_length]
    exact hindex.head_lt c hc
  have hfalls := date_redate_le hhead hearlier.le
  refine ⟨?_, hinv.pending_length, ?_, ?_, ?_, ?_, ?_, ?_, hinv.pending_eq⟩
  · simpa [Dating.redate] using hinv.dates_length
  · exact fun u => (hfalls u).trans (hinv.date_le u)
  · intro u hu
    rcases List.mem_append.mp hu with hold | hnew
    · exact hinv.queue_lt u hold
    · rw [List.mem_singleton.mp hnew]
      exact hindex.head_lt c hc
  · intro u hu
    rw [← hinv.date_eq_zero_iff u hu, date_redate hhead]
    split
    next heq =>
      subst u
      omega
    next => exact Iff.rfl
  · intro u hu
    by_cases heq : u = index.head c
    · subst u
      refine Or.inr ⟨c, hc, rfl, ?_⟩
      rw [date_redate hhead, if_pos rfl]
      exact Nat.succ_le_succ (latest_mono (fun b _ => hfalls b))
    · have hsame : (s.redate (index.head c) (s.latest (index.body c) + 1)).date u = s.date u := by
        rw [date_redate hhead, if_neg heq]
      rw [hsame] at hu ⊢
      rcases hinv.supported u hu with hgiven | ⟨d, hd, hdhead, hlater⟩
      · exact Or.inl hgiven
      · exact Or.inr ⟨d, hd, hdhead,
          (Nat.succ_le_succ (latest_mono (fun b _ => hfalls b))).trans hlater⟩
  · intro u hu
    by_cases heq : u = index.head c
    · exact Or.inr (by simp [Dating.redate, heq])
    · rw [date_redate hhead, if_neg heq] at hu
      rcases hinv.known u hu with hvisited | hqueued
      · exact Or.inl hvisited
      · exact Or.inr (List.mem_append_left _ hqueued)
  · intro d hd hall
    -- No tuple of the body has a new date, for the head of `c` is queued.
    have hlatest : (s.redate (index.head c) (s.latest (index.body c) + 1)).latest
        (index.body d) = s.latest (index.body d) := by
      apply latest_congr
      intro b hb
      rw [date_redate hhead, if_neg]
      rintro rfl
      exact (hall _ hb).2 (by simp [Dating.redate])
    rw [hlatest]
    rcases hinv.settled d hd (fun b hb =>
      ⟨(hall b hb).1, fun hq => (hall b hb).2 (List.mem_append_left _ hq)⟩) with hmem | hle
    · rcases List.mem_cons.mp hmem with rfl | htodo
      · right
        rw [date_redate hhead, if_pos rfl]
      · exact Or.inl htodo
    · exact Or.inr ((hfalls _).trans hle)

theorem Invariant.skip (hinv : Invariant index given due (c :: todo) s)
    (hsettled : (∀ b ∈ index.body c, b ∈ s.visited) →
      s.date (index.head c) ≤ s.latest (index.body c) + 1) :
    Invariant index given due todo s := by
  refine { hinv with settled := ?_ }
  intro d hd hall
  rcases hinv.settled d hd hall with hmem | hle
  · rcases List.mem_cons.mp hmem with rfl | htodo
    · exact Or.inr (hsettled (fun b hb => (hall b hb).1))
    · exact Or.inl htodo
  · exact Or.inr hle

theorem Invariant.relax (hindex : index.WellFormed) (hc : c < index.rules.length)
    (hinv : Invariant index given due (c :: todo) s) :
    Invariant index given due todo (s.relax index c) := by
  rcases relax_cases index (hinv.date_le (index.head c)) with
    ⟨hearlier, hrelax⟩ | ⟨hsettled, hrelax⟩
  · rw [hrelax]
    exact hinv.redate hindex hc hearlier
  · rw [hrelax]
    exact hinv.skip (fun _ => hsettled)

/-- The first visit of a tuple is counted for a rule that uses it. -/
def counted (firstVisit : Bool) (s : Dating) (c : Nat) : Dating :=
  if firstVisit then { s with pending := s.pending.modify c (· - 1) } else s

theorem reach_eq (index : ClauseIndex) (firstVisit : Bool) (s : Dating) (c : Nat) :
    s.reach index firstVisit c =
      if (s.counted firstVisit c).pending.getD c 0 = 0
      then (s.counted firstVisit c).relax index c else s.counted firstVisit c := rfl

section Counted

variable (firstVisit : Bool) (s : Dating) (c : Nat)

@[simp] theorem counted_dates : (s.counted firstVisit c).dates = s.dates := by
  cases firstVisit <;> rfl

@[simp] theorem counted_visited : (s.counted firstVisit c).visited = s.visited := by
  cases firstVisit <;> rfl

@[simp] theorem counted_date (t : Nat) : (s.counted firstVisit c).date t = s.date t := by
  cases firstVisit <;> rfl

@[simp] theorem counted_latest (body : List Nat) :
    (s.counted firstVisit c).latest body = s.latest body := by
  cases firstVisit <;> rfl

@[simp] theorem counted_work : (s.counted firstVisit c).work = s.work := by
  cases firstVisit <;> rfl

end Counted

theorem Invariant.count (hinv : Invariant index given (c :: due) todo s) :
    Invariant index given due todo { s with pending := s.pending.modify c (· - 1) } := by
  refine { hinv with pending_length := ?_, pending_eq := ?_ }
  · simpa using hinv.pending_length
  · intro d hd
    have hold := hinv.pending_eq d hd
    have hdlt : d < s.pending.length := hinv.pending_length ▸ hd
    by_cases heq : c = d
    · subst d
      rw [List.count_cons_self, List.getD_eq_getElem _ _ hdlt] at hold
      rw [List.getD_eq_getElem _ _ (by simpa using hdlt), List.getElem_modify, if_pos rfl]
      dsimp only
      omega
    · rw [List.count_cons_of_ne heq, List.getD_eq_getElem _ _ hdlt] at hold
      rw [List.getD_eq_getElem _ _ (by simpa using hdlt), List.getElem_modify, if_neg heq]
      exact hold

theorem Invariant.counted {firstVisit : Bool}
    (hinv : Invariant index given (if firstVisit then c :: due else []) todo s) :
    Invariant index given (if firstVisit then due else []) todo (s.counted firstVisit c) := by
  cases firstVisit with
  | false => exact hinv
  | true => exact Invariant.count hinv

theorem Invariant.pending_eq_zero_iff (hinv : Invariant index given due todo s)
    (hc : c < index.rules.length) (hdue : c ∉ due) :
    s.pending.getD c 0 = 0 ↔ ∀ b ∈ index.body c, b ∈ s.visited := by
  rw [hinv.pending_eq c hc, List.count_eq_zero_of_not_mem hdue, Nat.add_zero,
    List.length_eq_zero_iff, List.filter_eq_nil_iff]
  simp

theorem sum_set_add {values : List Nat} {i x : Nat} (hi : i < values.length) :
    (values.set i x).sum + values[i] = values.sum + x := by
  induction values generalizing i with
  | nil => simp at hi
  | cons y values ih =>
      cases i with
      | zero =>
          simp only [List.set_cons_zero, List.sum_cons, List.getElem_cons_zero]
          omega
      | succ i =>
          have hrest := ih (Nat.lt_of_succ_lt_succ hi)
          simp only [List.set_cons_succ, List.sum_cons, List.getElem_cons_succ]
          omega

theorem work_eq (s : Dating) : s.work = s.dates.sum + s.queue.length := by
  have hfold : ∀ (values : List Nat) (n : Nat), values.foldr (· + ·) n = values.sum + n := by
    intro values n
    induction values with
    | nil => simp
    | cons x values ih => rw [List.foldr_cons, ih, List.sum_cons, Nat.add_assoc]
  exact hfold s.dates s.queue.length

theorem Invariant.relax_work_le (hindex : index.WellFormed) (hc : c < index.rules.length)
    (hinv : Invariant index given due todo s) : (s.relax index c).work ≤ s.work := by
  rcases relax_cases index (hinv.date_le (index.head c)) with
    ⟨hearlier, hrelax⟩ | ⟨_, hrelax⟩
  · have hhead : index.head c < s.dates.length := by
      rw [hinv.dates_length]
      exact hindex.head_lt c hc
    have hsum : (s.dates.set (index.head c) (s.latest (index.body c) + 1)).sum +
        s.dates[index.head c] = s.dates.sum + (s.latest (index.body c) + 1) := sum_set_add hhead
    have hdate : s.date (index.head c) = s.dates[index.head c] :=
      List.getD_eq_getElem _ _ hhead
    rw [hrelax, work_eq, work_eq]
    simp only [Dating.redate, List.length_append, List.length_singleton]
    omega
  · rw [hrelax]

/-- Reaching a rule counts the visit if it is the first one, and settles the rule. -/
theorem Invariant.reach (hindex : index.WellFormed) (hc : c < index.rules.length)
    (hnew : c ∉ todo) {firstVisit : Bool}
    (hinv : Invariant index given (if firstVisit then c :: todo else []) (c :: todo) s) :
    Invariant index given (if firstVisit then todo else []) todo
      (s.reach index firstVisit c) ∧ (s.reach index firstVisit c).work ≤ s.work := by
  have hcounted := hinv.counted
  have hdue : c ∉ (if firstVisit then todo else []) := by
    cases firstVisit <;> simp [hnew]
  rw [reach_eq, ← counted_work firstVisit s c]
  by_cases hdone : (s.counted firstVisit c).pending.getD c 0 = 0
  · rw [if_pos hdone]
    exact ⟨hcounted.relax hindex hc, hcounted.relax_work_le hindex hc⟩
  · rw [if_neg hdone]
    refine ⟨hcounted.skip ?_, le_rfl⟩
    intro hall
    exact absurd ((hcounted.pending_eq_zero_iff hc hdue).mpr hall) hdone

/-! ## Runs of the worklist -/

theorem Invariant.sweep (hindex : index.WellFormed) (hvalid : ∀ c ∈ todo, c < index.rules.length)
    (hnodup : todo.Nodup) {firstVisit : Bool}
    (hinv : Invariant index given (if firstVisit then todo else []) todo s) :
    Invariant index given [] [] (todo.foldl (Dating.reach index firstVisit) s) ∧
      (todo.foldl (Dating.reach index firstVisit) s).work ≤ s.work := by
  induction todo generalizing s with
  | nil => exact ⟨by simpa using hinv, le_rfl⟩
  | cons c todo ih =>
      rw [List.nodup_cons] at hnodup
      obtain ⟨hreached, hwork⟩ := hinv.reach hindex (hvalid c List.mem_cons_self) hnodup.1
      obtain ⟨hrest, hfalls⟩ :=
        ih (fun d hd => hvalid d (List.mem_cons_of_mem _ hd)) hnodup.2 hreached
      exact ⟨hrest, hfalls.trans hwork⟩

theorem length_unvisited (visited body : List Nat) {t : Nat} (hnew : t ∉ visited) :
    (body.filter (fun b => !visited.contains b)).length =
      (body.filter (fun b => !(Arrival.insert visited t).contains b)).length + body.count t := by
  induction body with
  | nil => rfl
  | cons b body ih =>
      by_cases heq : b = t
      · subst b
        simp [hnew] at ih ⊢
        omega
      · by_cases hvisited : b ∈ visited <;> simp [heq, hvisited] at ih ⊢ <;> omega

theorem unvisited_insert (hindex : index.WellFormed) (hc : c < index.rules.length) {t : Nat}
    (hnew : t ∉ s.visited) :
    ((index.body c).filter (fun b => !s.visited.contains b)).length =
      ((index.body c).filter (fun b => !(Arrival.insert s.visited t).contains b)).length +
        (index.consequents t).count c := by
  rw [length_unvisited s.visited (index.body c) hnew]
  have hcount : (index.consequents t).count c = (index.body c).count t := by
    have hnodup : (index.consequents t).Nodup := index.ruleNumbers_nodup _
    rw [hnodup.count, (hindex.body_nodup c).count]
    simp [index.mem_consequents, hc]
  rw [hcount]

theorem Invariant.pop (hindex : index.WellFormed) {t : Nat} {rest : List Nat}
    (hinv : Invariant index given [] [] s) (hqueue : s.queue = t :: rest) :
    Invariant index given (if !s.visited.contains t then index.consequents t else [])
      (index.consequents t)
      { s with queue := rest, visited := Arrival.insert s.visited t } := by
  refine { hinv with queue_lt := ?_, known := ?_, settled := ?_, pending_eq := ?_ }
  · intro u hu
    exact hinv.queue_lt u (by simp [hqueue, hu])
  · intro u hu
    rcases hinv.known u hu with hvisited | hqueued
    · exact Or.inl (Arrival.mem_insert.mpr (Or.inl hvisited))
    · rw [hqueue] at hqueued
      rcases List.mem_cons.mp hqueued with heq | hrest
      · exact Or.inl (Arrival.mem_insert.mpr (Or.inr heq))
      · exact Or.inr hrest
  · intro c hc hall
    by_cases huses : t ∈ index.body c
    · exact Or.inl (index.mem_consequents.mpr ⟨hc, huses⟩)
    · right
      have hsettled := hinv.settled c hc (by
        intro b hb
        have hne : b ≠ t := by
          rintro rfl
          exact huses hb
        obtain ⟨hvisited, hnot⟩ := hall b hb
        refine ⟨(Arrival.mem_insert.mp hvisited).resolve_right hne, ?_⟩
        rw [hqueue, List.mem_cons, not_or]
        exact ⟨hne, hnot⟩)
      exact hsettled.resolve_left List.not_mem_nil
  · intro c hc
    have hold := hinv.pending_eq c hc
    rw [List.count_nil, Nat.add_zero] at hold
    rw [hold]
    by_cases hagain : t ∈ s.visited
    · have hsame : Arrival.insert s.visited t = s.visited := by
        simp [Arrival.insert, hagain]
      simp [hsame, hagain]
    · have hfirst : (!s.visited.contains t) = true := by simpa using hagain
      rw [if_pos hfirst]
      exact unvisited_insert hindex hc hagain

theorem Invariant.visit (hindex : index.WellFormed) {t : Nat} {rest : List Nat}
    (hinv : Invariant index given [] [] s) (hqueue : s.queue = t :: rest) :
    Invariant index given [] [] (Dating.visit index { s with queue := rest } t) ∧
      (Dating.visit index { s with queue := rest } t).work + 1 ≤ s.work := by
  obtain ⟨hvisited, hwork⟩ := (hinv.pop hindex hqueue).sweep hindex
    (fun c hc => (index.mem_consequents.mp hc).1) (index.ruleNumbers_nodup _)
  refine ⟨hvisited, ?_⟩
  refine (Nat.succ_le_succ hwork).trans ?_
  rw [work_eq, work_eq, hqueue]
  simp only [List.length_cons]
  omega

/-- With fuel for all the work, the worklist ends with an empty queue. -/
theorem Invariant.run (hindex : index.WellFormed) {fuel : Nat}
    (hinv : Invariant index given [] [] s) (hfuel : s.work ≤ fuel) :
    Invariant index given [] [] (Dating.run index fuel s) ∧
      (Dating.run index fuel s).queue = [] := by
  induction fuel generalizing s with
  | zero =>
      rw [work_eq] at hfuel
      have hempty : s.queue.length = 0 := by omega
      exact ⟨hinv, List.length_eq_zero_iff.mp hempty⟩
  | succ fuel ih =>
      unfold Dating.run
      cases hqueue : s.queue with
      | nil => exact ⟨hinv, hqueue⟩
      | cons t rest =>
          obtain ⟨hvisited, hwork⟩ := hinv.visit hindex hqueue
          exact ih hvisited (by omega)

/-! ## The whole worklist -/

theorem mem_emptyBodies :
    c ∈ index.ruleNumbers (fun _ rule => rule.body.isEmpty) ↔
      c < index.rules.length ∧ index.body c = [] := by
  simp [index.mem_ruleNumbers_iff]

theorem date_start {inputs : List GroundTuple} {i : Nat} {t : GroundTuple}
    (ht : index.tuples[i]? = some t) :
    (start index inputs).date i = if inputs.contains t then 0 else index.size := by
  simp [start, Dating.date, ht]

theorem date_start_of_le {inputs : List GroundTuple} {i : Nat} (hi : index.size ≤ i) :
    (start index inputs).date i = index.size := by
  have hnone : index.tuples[i]? = none := List.getElem?_eq_none hi
  simp [start, Dating.date, hnone, ClauseIndex.size]

theorem start_invariant (index : ClauseIndex) (inputs : List GroundTuple) :
    Invariant index (index.Given inputs) []
      (index.ruleNumbers (fun _ rule => rule.body.isEmpty)) (start index inputs) := by
  have hdate : ∀ i, (start index inputs).date i = index.size ∨
      ((start index inputs).date i = 0 ∧ i < index.size ∧ index.Given inputs i) := by
    intro i
    by_cases hi : i < index.size
    · have ht : index.tuples[i]? = some index.tuples[i] := List.getElem?_eq_getElem hi
      rw [date_start ht]
      by_cases hinput : index.tuples[i] ∈ inputs
      · right
        exact ⟨by simp [hinput], hi, _, hinput, ht⟩
      · left
        simp [hinput]
    · left
      exact date_start_of_le (Nat.le_of_not_lt hi)
  refine ⟨?_, ?_, ?_, ?_, ?_, ?_, ?_, ?_, ?_⟩
  · simp [start, ClauseIndex.size]
  · simp [start]
  · intro i
    rcases hdate i with hlast | ⟨hzero, _⟩ <;> omega
  · intro i hi
    simp only [start, List.mem_filter, List.mem_range] at hi
    exact hi.1
  · intro i hi
    constructor
    · intro hzero
      rcases hdate i with hlast | ⟨_, _, hgiven⟩
      · omega
      · exact hgiven
    · rintro ⟨t, hinput, ht⟩
      rw [date_start ht]
      simp [hinput]
  · intro i hi
    rcases hdate i with hlast | ⟨_, _, hgiven⟩
    · omega
    · exact Or.inl hgiven
  · intro i hi
    rcases hdate i with hlast | ⟨hzero, hlt, t, hinput, ht⟩
    · omega
    · right
      simp only [start, List.mem_filter, List.mem_range]
      refine ⟨hlt, ?_⟩
      simp [List.getD_eq_getElem?_getD, ht, hinput]
  · intro c hc hall
    left
    rw [mem_emptyBodies]
    refine ⟨hc, List.eq_nil_iff_forall_not_mem.mpr ?_⟩
    intro b hb
    simpa [start] using (hall b hb).1
  · intro c hc
    have hrule := index.rule_of_lt hc
    simp [start, List.getD_eq_getElem?_getD, hrule]

theorem Invariant.seed (hindex : index.WellFormed) (hvalid : ∀ c ∈ todo, c < index.rules.length)
    (hinv : Invariant index given [] todo s) :
    Invariant index given [] [] (todo.foldl (Dating.relax index) s) := by
  induction todo generalizing s with
  | nil => exact hinv
  | cons c todo ih =>
      exact ih (fun d hd => hvalid d (List.mem_cons_of_mem _ hd))
        (hinv.relax hindex (hvalid c List.mem_cons_self))

theorem final_invariant (hindex : index.WellFormed) (inputs : List GroundTuple) :
    Invariant index (index.Given inputs) [] [] (final index inputs) ∧
      (final index inputs).queue = [] :=
  ((start_invariant index inputs).seed hindex (fun _ hc => (mem_emptyBodies.mp hc).1)).run
    hindex le_rfl

end Dating

/-! ## Dates and heights -/

namespace ClauseIndex

variable {index : ClauseIndex} {inputs : List GroundTuple}

def birthDate (index : ClauseIndex) (inputs : List GroundTuple) (t : Nat) : Nat :=
  (Dating.final index inputs).date t

theorem birthDates_getD (hindex : index.WellFormed) (t : Nat) :
    (index.birthDates inputs).getD t index.size = index.birthDate inputs t := by
  unfold birthDates birthDate Dating.date
  rw [(Dating.final_invariant hindex inputs).1.dates_length]

/-- In the end no rule dates its head earlier. -/
theorem birthDate_closed (hindex : index.WellFormed) {c : Nat} (hc : c < index.rules.length) :
    index.birthDate inputs (index.head c) ≤
      (Dating.final index inputs).latest (index.body c) + 1 := by
  obtain ⟨hinv, hqueue⟩ := Dating.final_invariant hindex inputs
  by_cases hall : ∀ b ∈ index.body c, b ∈ (Dating.final index inputs).visited
  · have hsettled := hinv.settled c hc (fun b hb => ⟨hall b hb, by simp [hqueue]⟩)
    exact hsettled.resolve_left List.not_mem_nil
  · push Not at hall
    obtain ⟨b, hb, hunvisited⟩ := hall
    -- A tuple that was never visited has no date below the number of tuples.
    have hlast : index.size ≤ (Dating.final index inputs).date b := by
      by_contra hearly
      rcases hinv.known b (Nat.lt_of_not_le hearly) with hvisited | hqueued
      · exact hunvisited hvisited
      · simp [hqueue] at hqueued
    have hlatest := Dating.latest_le_iff.mp (le_refl
      ((Dating.final index inputs).latest (index.body c))) b hb
    have hbound := hinv.date_le (index.head c)
    unfold birthDate
    omega

theorem birthDate_le_of_within (hindex : index.WellFormed) {height t : Nat}
    (ht : t < index.size) (hheight : index.Within (index.Given inputs) height t) :
    index.birthDate inputs t ≤ height := by
  induction height generalizing t with
  | zero =>
      have hinv := (Dating.final_invariant hindex inputs).1
      exact ((hinv.date_eq_zero_iff t ht).mpr hheight).le
  | succ height ih =>
      rcases hheight with hlow | ⟨c, hc, rfl, hbody⟩
      · exact (ih ht hlow).trans (Nat.le_succ height)
      · refine (birthDate_closed hindex hc).trans (Nat.succ_le_succ ?_)
        rw [Dating.latest_le_iff]
        intro b hb
        exact ih (hindex.body_lt c b hb) (hbody b hb)

theorem within_of_birthDate_lt (hindex : index.WellFormed) {t : Nat}
    (hdate : index.birthDate inputs t < index.size) :
    index.Within (index.Given inputs) (index.birthDate inputs t) t := by
  obtain ⟨hinv, _⟩ := Dating.final_invariant hindex inputs
  induction hn : index.birthDate inputs t using Nat.strong_induction_on generalizing t with
  | _ n ih =>
      subst n
      rcases hinv.supported t hdate with hgiven | ⟨c, hc, hhead, hlater⟩
      · exact Within.mono (Nat.zero_le _) hgiven
      · obtain ⟨height, hheight⟩ :=
          Nat.exists_eq_add_of_le' (Nat.one_le_of_lt (Nat.lt_of_succ_le hlater))
        change index.birthDate inputs t = height + 1 at hheight
        rw [hheight]
        refine Or.inr ⟨c, hc, hhead, ?_⟩
        intro b hb
        have hle : index.birthDate inputs b ≤ height := by
          have hb' := Dating.latest_le_iff.mp (le_refl
            ((Dating.final index inputs).latest (index.body c))) b hb
          change (Dating.final index inputs).latest (index.body c) + 1 ≤
            index.birthDate inputs t at hlater
          unfold birthDate at hheight hlater ⊢
          omega
        exact (ih _ (by omega) (by omega) rfl).mono hle

/-- The date of a derivable number is the height of one of its derivations. -/
theorem within_birthDate (hindex : index.WellFormed) {height t : Nat} (ht : t < index.size)
    (hheight : index.Within (index.Given inputs) height t) :
    index.Within (index.Given inputs) (index.birthDate inputs t) t := by
  by_cases hdate : index.birthDate inputs t < index.size
  · exact within_of_birthDate_lt hindex hdate
  · exact (within_size hindex ht hheight).mono (Nat.le_of_not_lt hdate)

end ClauseIndex

end DerivationBelief

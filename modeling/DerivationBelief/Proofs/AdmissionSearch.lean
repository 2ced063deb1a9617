import DerivationBelief.Augmentation
import DerivationBelief.Proofs.ClauseIndex
import DerivationBelief.Proofs.Exploration
import Mathlib.Tactic

/-!
# The search from both ends decides whether a batch meets itself

The two sides of the search are explorations of the same dependencies, backward from the bodies of a
batch and forward from its heads.  They never share a tuple while the search runs, so the search
reports a meeting exactly if some tuple leads to a body of the batch and is reached from a head.
-/

namespace DerivationBelief

open Relation

namespace Frontiers

def swap (f : Frontiers) : Frontiers :=
  ⟨f.descendants, f.ancestors, f.newDescendants, f.newAncestors⟩

theorem addDescendant?_eq_swap (f : Frontiers) (t : Nat) :
    f.addDescendant? t = (f.swap.addAncestor? t).map swap := by
  unfold addDescendant? addAncestor?
  by_cases hother : t ∈ f.ancestors
  · simp [swap, hother]
  · by_cases hfound : t ∈ f.descendants <;> simp [swap, hother, hfound]

theorem foldlM_addDescendant?_eq_swap (f : Frontiers) (ts : List Nat) :
    ts.foldlM addDescendant? f = (ts.foldlM addAncestor? f.swap).map swap := by
  induction ts generalizing f with
  | nil => rfl
  | cons t ts ih =>
      rw [List.foldlM_cons, List.foldlM_cons, addDescendant?_eq_swap]
      cases hstep : f.swap.addAncestor? t with
      | none => rfl
      | some next => exact ih next.swap

/-- A tuple that does not meet the other side is found, if it has not been found before. -/
theorem addAncestor?_of_apart {f : Frontiers} {t : Nat} (hapart : t ∉ f.descendants) :
    f.addAncestor? t = some { f with
      ancestors := f.ancestors ++ fresh f.ancestors [t]
      newAncestors := f.newAncestors ++ fresh f.ancestors [t] } := by
  by_cases hfound : t ∈ f.ancestors <;> simp [addAncestor?, fresh, hapart, hfound]

theorem foldlM_addAncestor?_eq_none {f : Frontiers} {ts : List Nat}
    (hnone : ts.foldlM addAncestor? f = none) : ∃ t ∈ ts, t ∈ f.descendants := by
  induction ts generalizing f with
  | nil => simp at hnone
  | cons t ts ih =>
      by_cases hmeet : t ∈ f.descendants
      · exact ⟨t, List.mem_cons_self, hmeet⟩
      · rw [List.foldlM_cons, addAncestor?_of_apart hmeet] at hnone
        obtain ⟨u, hu, hmem⟩ := ih hnone
        exact ⟨u, List.mem_cons_of_mem _ hu, hmem⟩

/-- Without a meeting, the tuples that are new have been found and wait for their expansion. -/
theorem foldlM_addAncestor?_eq_some {f next : Frontiers} {ts : List Nat}
    (hsome : ts.foldlM addAncestor? f = some next) :
    (∀ t ∈ ts, t ∉ f.descendants) ∧
      next = { f with
        ancestors := f.ancestors ++ fresh f.ancestors ts
        newAncestors := f.newAncestors ++ fresh f.ancestors ts } := by
  induction ts generalizing f with
  | nil =>
      simp only [List.foldlM_nil, Option.pure_def, Option.some.injEq] at hsome
      subst next
      simp [fresh]
  | cons t ts ih =>
      rw [List.foldlM_cons] at hsome
      have hapart : t ∉ f.descendants := by
        intro hmeet
        simp [addAncestor?, hmeet] at hsome
      rw [addAncestor?_of_apart hapart] at hsome
      obtain ⟨hrest, rfl⟩ := ih hsome
      refine ⟨List.forall_mem_cons.mpr ⟨hapart, hrest⟩, ?_⟩
      rw [fresh_cons f.ancestors t ts]
      simp only [List.append_assoc]

/-! ## What the search knows -/

/-- Both sides are explorations, and they have not met. -/
structure Searching (back ahead : Nat → Nat → Prop) (bodies heads : Nat → Prop) (bound : Nat)
    (f : Frontiers) : Prop where
  behind : Exploration back bodies bound f.ancestors f.newAncestors
  before : Exploration ahead heads bound f.descendants f.newDescendants
  apart : ∀ t ∈ f.ancestors, t ∉ f.descendants

/-- Some element is reached from both starts. -/
def Meet (back ahead : Nat → Nat → Prop) (bodies heads : Nat → Prop) : Prop :=
  ∃ t, (∃ s, bodies s ∧ ReflTransGen back s t) ∧ ∃ s, heads s ∧ ReflTransGen ahead s t

theorem Meet.swap {back ahead : Nat → Nat → Prop} {bodies heads : Nat → Prop}
    (hmeet : Meet back ahead bodies heads) : Meet ahead back heads bodies := by
  obtain ⟨t, hback, hahead⟩ := hmeet
  exact ⟨t, hahead, hback⟩

def work (bound : Nat) (f : Frontiers) : Nat :=
  Exploration.work bound f.ancestors f.newAncestors +
    Exploration.work bound f.descendants f.newDescendants

theorem work_swap (bound : Nat) (f : Frontiers) : f.swap.work bound = f.work bound := by
  simp only [work, swap]
  exact Nat.add_comm _ _

theorem Searching.swap {back ahead : Nat → Nat → Prop} {bodies heads : Nat → Prop} {bound : Nat}
    {f : Frontiers} (hsearch : Searching back ahead bodies heads bound f) :
    Searching ahead back heads bodies bound f.swap where
  behind := hsearch.before
  before := hsearch.behind
  apart := fun t ht hother => hsearch.apart t hother ht

/-- What a step of the search may answer: that the sides meet, or a search with less to do. -/
def Progress (back ahead : Nat → Nat → Prop) (bodies heads : Nat → Prop) (bound : Nat)
    (f : Frontiers) : Option Frontiers → Prop
  | none => Meet back ahead bodies heads
  | some next => Searching back ahead bodies heads bound next ∧
      next.work bound + 1 = f.work bound

theorem Progress.swap {back ahead : Nat → Nat → Prop} {bodies heads : Nat → Prop} {bound : Nat}
    {f : Frontiers} {result : Option Frontiers}
    (hprogress : Progress back ahead bodies heads bound f.swap result) :
    Progress ahead back heads bodies bound f (result.map Frontiers.swap) := by
  cases result with
  | none => exact Meet.swap hprogress
  | some next =>
      refine ⟨Searching.swap hprogress.1, ?_⟩
      rw [work_swap, hprogress.2, work_swap]

namespace Searching

variable {back ahead : Nat → Nat → Prop} {bodies heads : Nat → Prop} {bound : Nat}
  {f : Frontiers}

theorem expand {t : Nat} {rest ts : List Nat}
    (hsearch : Searching back ahead bodies heads bound f) (hnew : f.newAncestors = t :: rest)
    (hts : ∀ u, u ∈ ts ↔ back t u) (hbound : ∀ u ∈ ts, u < bound) :
    Progress back ahead bodies heads bound f
      (ts.foldlM addAncestor? { f with newAncestors := rest }) := by
  cases hresult : ts.foldlM addAncestor? { f with newAncestors := rest } with
  | none =>
      obtain ⟨u, hu, hmeet⟩ := foldlM_addAncestor?_eq_none hresult
      have ht : t ∈ f.ancestors := hsearch.behind.pending_found t (by simp [hnew])
      obtain ⟨s, hs, hchain⟩ := hsearch.behind.reached t ht
      exact ⟨u, ⟨s, hs, hchain.tail ((hts u).mp hu)⟩, hsearch.before.reached u hmeet⟩
  | some next =>
      obtain ⟨hapart, hnext⟩ := foldlM_addAncestor?_eq_some hresult
      have hbehind : Exploration back bodies bound (f.ancestors ++ fresh f.ancestors ts)
          (rest ++ fresh f.ancestors ts) :=
        (hnew ▸ hsearch.behind).expand hts hbound
      have hwork := hbehind.work_expand (t := t)
      subst next
      refine ⟨⟨hbehind, hsearch.before, ?_⟩, ?_⟩
      · intro u hu
        rcases List.mem_append.mp hu with hold | hadded
        · exact hsearch.apart u hold
        · exact hapart u (mem_of_mem_fresh hadded)
      · simp only [work, hnew]
        omega

theorem not_meet (hsearch : Searching back ahead bodies heads bound f)
    (hancestors : f.newAncestors = []) (hdescendants : f.newDescendants = []) :
    ¬ Meet back ahead bodies heads := by
  rintro ⟨t, hback, hahead⟩
  have hbehind := hsearch.behind
  have hbefore := hsearch.before
  rw [hancestors] at hbehind
  rw [hdescendants] at hbefore
  exact hsearch.apart t (hbehind.mem_iff.mpr hback) (hbefore.mem_iff.mpr hahead)

end Searching

/-! ## The search over an index -/

section Index

variable {index : ClauseIndex} {accepted : List Nat} {bodies heads : Nat → Prop}
  {f : Frontiers}

abbrev SearchingIn (index : ClauseIndex) (accepted : List Nat) (bodies heads : Nat → Prop)
    (f : Frontiers) : Prop :=
  Searching (fun t u => index.Feeds accepted u t) (index.Feeds accepted) bodies heads
    index.size f

abbrev MeetIn (index : ClauseIndex) (accepted : List Nat) (bodies heads : Nat → Prop) : Prop :=
  Meet (fun t u => index.Feeds accepted u t) (index.Feeds accepted) bodies heads

theorem feeds_lt (hindex : index.WellFormed) {s t : Nat} (hfeeds : index.Feeds accepted s t) :
    s < index.size ∧ t < index.size := by
  obtain ⟨c, _, hlt, hbody, rfl⟩ := hfeeds
  exact ⟨hindex.body_lt c s hbody, hindex.head_lt c hlt⟩

abbrev ProgressIn (index : ClauseIndex) (accepted : List Nat) (bodies heads : Nat → Prop)
    (f : Frontiers) (result : Option Frontiers) : Prop :=
  Progress (fun t u => index.Feeds accepted u t) (index.Feeds accepted) bodies heads
    index.size f result

theorem expandAncestor?_progress (hindex : index.WellFormed) {t : Nat} {rest : List Nat}
    (hsearch : SearchingIn index accepted bodies heads f) (hnew : f.newAncestors = t :: rest) :
    ProgressIn index accepted bodies heads f
      (expandAncestor? index accepted { f with newAncestors := rest } t) :=
  hsearch.expand hnew (fun _ => index.mem_bodies_iff_feeds)
    (fun _ hu => (feeds_lt hindex (index.mem_bodies_iff_feeds.mp hu)).1)

theorem expandDescendant?_progress (hindex : index.WellFormed) {t : Nat} {rest : List Nat}
    (hsearch : SearchingIn index accepted bodies heads f) (hnew : f.newDescendants = t :: rest) :
    ProgressIn index accepted bodies heads f
      (expandDescendant? index accepted { f with newDescendants := rest } t) := by
  rw [expandDescendant?, foldlM_addDescendant?_eq_swap]
  apply Progress.swap
  exact hsearch.swap.expand hnew (fun _ => index.mem_heads_iff_feeds)
    (fun _ hu => (feeds_lt hindex (index.mem_heads_iff_feeds.mp hu)).2)

theorem step?_progress (hindex : index.WellFormed)
    (hsearch : SearchingIn index accepted bodies heads f)
    (hpending : ¬ (f.newAncestors = [] ∧ f.newDescendants = [])) :
    ProgressIn index accepted bodies heads f (f.step? index accepted) := by
  obtain ⟨ancestors, descendants, newAncestors, newDescendants⟩ := f
  cases newAncestors with
  | nil =>
      cases newDescendants with
      | nil => exact absurd ⟨rfl, rfl⟩ hpending
      | cons d ds => exact expandDescendant?_progress hindex hsearch rfl
  | cons a as =>
      cases newDescendants with
      | nil => exact expandAncestor?_progress hindex hsearch rfl
      | cons d ds =>
          by_cases hsmaller : ancestors.length < descendants.length
          · simp only [step?, if_pos hsmaller]
            exact expandAncestor?_progress hindex hsearch rfl
          · simp only [step?, if_neg hsmaller]
            exact expandDescendant?_progress hindex hsearch rfl

/-- The search ends with an answer after some number of steps. -/
inductive Ends (index : ClauseIndex) (accepted : List Nat) : Frontiers → Bool → Prop
  | apart {f : Frontiers} (hdone : f.newAncestors = [] ∧ f.newDescendants = []) :
      Ends index accepted f true
  | met {f : Frontiers} (hpending : ¬ (f.newAncestors = [] ∧ f.newDescendants = []))
      (hstep : f.step? index accepted = none) : Ends index accepted f false
  | step {f next : Frontiers} {answer : Bool}
      (hpending : ¬ (f.newAncestors = [] ∧ f.newDescendants = []))
      (hstep : f.step? index accepted = some next) (hrest : Ends index accepted next answer) :
      Ends index accepted f answer

/-- However the search ends, it ends apart exactly if nothing is reached from both starts. -/
theorem Ends.answer_iff (hindex : index.WellFormed) {answer : Bool}
    (hends : Ends index accepted f answer)
    (hsearch : SearchingIn index accepted bodies heads f) :
    answer = true ↔ ¬ MeetIn index accepted bodies heads := by
  induction hends with
  | apart hdone => simpa using hsearch.not_meet hdone.1 hdone.2
  | met hpending hstep =>
      have hprogress := step?_progress hindex hsearch hpending
      rw [hstep] at hprogress
      simpa [Progress] using hprogress
  | step hpending hstep _ ih =>
      have hprogress := step?_progress hindex hsearch hpending
      rw [hstep] at hprogress
      exact ih hprogress.1

/-- With fuel for all the work, the answer is the one of the search without fuel. -/
theorem staysApart_ends (hindex : index.WellFormed) {fuel : Nat}
    (hsearch : SearchingIn index accepted bodies heads f) (hfuel : f.work index.size < fuel) :
    Ends index accepted f (f.staysApart index accepted fuel) := by
  induction fuel generalizing f with
  | zero => omega
  | succ fuel ih =>
      by_cases hdone : f.newAncestors = [] ∧ f.newDescendants = []
      · have hanswer : f.staysApart index accepted (fuel + 1) = true := by
          simp [staysApart, hdone.1, hdone.2]
        rw [hanswer]
        exact Ends.apart hdone
      · have hbool : (f.newAncestors.isEmpty && f.newDescendants.isEmpty) = false := by
          simpa using hdone
        simp only [staysApart, hbool, Bool.false_eq_true, if_false]
        have hprogress := step?_progress hindex hsearch hdone
        cases hstep : f.step? index accepted with
        | none => exact Ends.met hdone hstep
        | some next =>
            rw [hstep] at hprogress
            exact Ends.step hdone hstep
              (ih hprogress.1 (by have hwork := hprogress.2; omega))

theorem staysApart_iff (hindex : index.WellFormed) {fuel : Nat}
    (hsearch : SearchingIn index accepted bodies heads f) (hfuel : f.work index.size < fuel) :
    f.staysApart index accepted fuel = true ↔ ¬ MeetIn index accepted bodies heads :=
  (staysApart_ends hindex hsearch hfuel).answer_iff hindex hsearch

end Index

end Frontiers

/-! ## Batches -/

namespace ClauseIndex

variable {index : ClauseIndex} {accepted batch : List Nat}

/-- Some tuple leads to a body of a batch and is reached from a head of the batch. -/
def BatchMeets (index : ClauseIndex) (accepted batch : List Nat) : Prop :=
  ∃ t, (∃ c ∈ batch, ∃ b ∈ index.body c, ReflTransGen (index.Feeds accepted) t b) ∧
    ∃ c ∈ batch, ReflTransGen (index.Feeds accepted) (index.head c) t

theorem batchMeets_iff :
    index.BatchMeets accepted batch ↔
      Frontiers.MeetIn index accepted
        (· ∈ Arrival.distinct (batch.flatMap index.body))
        (· ∈ Arrival.distinct (batch.map index.head)) := by
  have hswap : ∀ s t, ReflTransGen (fun t u => index.Feeds accepted u t) s t ↔
      ReflTransGen (index.Feeds accepted) t s := fun s t => reflTransGen_swap
  simp only [BatchMeets, Frontiers.Meet, Arrival.mem_distinct, List.mem_flatMap, List.mem_map,
    hswap]
  constructor
  · rintro ⟨t, ⟨c, hc, b, hb, hback⟩, d, hd, hahead⟩
    exact ⟨t, ⟨b, ⟨c, hc, hb⟩, hback⟩, _, ⟨d, hd, rfl⟩, hahead⟩
  · rintro ⟨t, ⟨b, ⟨c, hc, hb⟩, hback⟩, _, ⟨d, hd, rfl⟩, hahead⟩
    exact ⟨t, ⟨c, hc, b, hb, hback⟩, d, hd, hahead⟩

theorem ofBatch_searching (accepted : List Nat) (hindex : index.WellFormed)
    (hbatch : ∀ c ∈ batch, c < index.rules.length)
    (hapart : ∀ t ∈ (Frontiers.ofBatch index batch).ancestors,
      t ∉ (Frontiers.ofBatch index batch).descendants) :
    Frontiers.SearchingIn index accepted
      (· ∈ Arrival.distinct (batch.flatMap index.body))
      (· ∈ Arrival.distinct (batch.map index.head)) (Frontiers.ofBatch index batch) where
  behind := by
    apply Exploration.initial (Arrival.distinct_nodup _)
    intro t ht
    simp only [Arrival.mem_distinct, List.mem_flatMap] at ht
    obtain ⟨c, _, hbody⟩ := ht
    exact hindex.body_lt c t hbody
  before := by
    apply Exploration.initial (Arrival.distinct_nodup _)
    intro t ht
    simp only [Arrival.mem_distinct, List.mem_map] at ht
    obtain ⟨c, hc, rfl⟩ := ht
    exact hindex.head_lt c (hbatch c hc)
  apart := hapart

theorem ofBatch_work (hsearch : Frontiers.SearchingIn index accepted
      (· ∈ Arrival.distinct (batch.flatMap index.body))
      (· ∈ Arrival.distinct (batch.map index.head)) (Frontiers.ofBatch index batch)) :
    (Frontiers.ofBatch index batch).work index.size < 2 * index.size + 1 := by
  have hbehind := hsearch.behind.length_le
  have hbefore := hsearch.before.length_le
  simp only [Frontiers.work, Exploration.work, Frontiers.ofBatch] at hbehind hbefore ⊢
  omega

/-- A batch whose bodies and heads have a tuple in common is refused at once, any other is searched
with fuel for all the work. -/
theorem keepsApart_cases (index : ClauseIndex) (accepted batch : List Nat) :
    ((∃ t ∈ (Frontiers.ofBatch index batch).ancestors,
        t ∈ (Frontiers.ofBatch index batch).descendants) ∧
      index.keepsApart accepted batch = false) ∨
    ((∀ t ∈ (Frontiers.ofBatch index batch).ancestors,
        t ∉ (Frontiers.ofBatch index batch).descendants) ∧
      index.keepsApart accepted batch =
        (Frontiers.ofBatch index batch).staysApart index accepted (2 * index.size + 1)) := by
  unfold keepsApart
  by_cases hmeet : ∃ t ∈ (Frontiers.ofBatch index batch).ancestors,
      t ∈ (Frontiers.ofBatch index batch).descendants
  · left
    have hany : (Frontiers.ofBatch index batch).ancestors.any
        (fun t => (Frontiers.ofBatch index batch).descendants.contains t) = true := by
      simpa using hmeet
    exact ⟨hmeet, by simp only [hany, if_true]⟩
  · right
    have hapart : ∀ t ∈ (Frontiers.ofBatch index batch).ancestors,
        t ∉ (Frontiers.ofBatch index batch).descendants :=
      fun t ht hother => hmeet ⟨t, ht, hother⟩
    have hany : (Frontiers.ofBatch index batch).ancestors.any
        (fun t => (Frontiers.ofBatch index batch).descendants.contains t) = false := by
      simpa using hapart
    exact ⟨hapart, by simp only [hany, Bool.false_eq_true, if_false]⟩

/-- The search keeps a batch apart exactly if the batch does not meet itself. -/
theorem keepsApart_iff (hindex : index.WellFormed)
    (hbatch : ∀ c ∈ batch, c < index.rules.length) :
    index.keepsApart accepted batch = true ↔ ¬ index.BatchMeets accepted batch := by
  rw [batchMeets_iff]
  rcases index.keepsApart_cases accepted batch with
    ⟨⟨t, hback, hahead⟩, hanswer⟩ | ⟨hapart, hanswer⟩
  · rw [hanswer]
    simp only [Bool.false_eq_true, false_iff, not_not]
    exact ⟨t, ⟨t, hback, ReflTransGen.refl⟩, t, hahead, ReflTransGen.refl⟩
  · have hsearch := ofBatch_searching accepted hindex hbatch hapart
    rw [hanswer]
    exact Frontiers.staysApart_iff hindex hsearch (ofBatch_work hsearch)

end ClauseIndex

end DerivationBelief

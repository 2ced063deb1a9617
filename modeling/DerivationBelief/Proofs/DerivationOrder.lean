import DerivationBelief.DerivationOrder
import DerivationBelief.Proofs.AcyclicRelation
import DerivationBelief.Proofs.ArrivalOrder
import DerivationBelief.Proofs.CoherentGraph
import DerivationBelief.Proofs.StrongComponents
import Mathlib.Data.List.TakeWhile
import Mathlib.Tactic

/-!
# Orders of a derivation

A search with a stack finishes a node when the node is on top again.  What is met but not finished
then is still open: it is on the stack, and it leads to all that is above it.  So when a node is
finished, whatever it leads to is finished or leads back to it.  Without a cycle nothing leads back,
and the reverse of the finishing order puts bodies in front of their heads.  The second search finds
out whether it does: it meets the nodes in that order and stops when something behind a node has
not been met.
-/

namespace DerivationBelief

open Relation

/-- Every node of the list stands behind the nodes that it leads to, those apart that lead back. -/
def Settled (ahead : Nat → List Nat) (order : List Nat) : Prop :=
  ∀ before v after, order = before ++ v :: after →
    ∀ u ∈ ahead v, u ∈ before ∨ LeadsTo ahead u v

theorem Settled.nil (ahead : Nat → List Nat) : Settled ahead [] := by
  intro before v after hsplit
  simp at hsplit

theorem Settled.concat {ahead : Nat → List Nat} {order : List Nat} (horder : Settled ahead order)
    {v : Nat} (hv : ∀ u ∈ ahead v, u ∈ order ∨ LeadsTo ahead u v) :
    Settled ahead (order ++ [v]) := by
  intro before u after hsplit
  rcases List.eq_nil_or_concat after with rfl | ⟨inner, last, rfl⟩
  · obtain ⟨rfl, hlast⟩ := List.append_inj' hsplit rfl
    cases hlast
    exact hv
  · rw [List.concat_eq_append, ← List.cons_append, ← List.append_assoc] at hsplit
    exact horder before u inner (List.append_inj' hsplit rfl).1

/-- In the reverse of a settled order a node stands in front of what it leads to. -/
theorem Settled.idxOf_lt {ahead : Nat → List Nat} {order : List Nat}
    (horder : Settled ahead order.reverse) (hnodup : order.Nodup) {u v : Nat} (hv : v ∈ order)
    (hu : u ∈ ahead v) (hback : ¬ LeadsTo ahead u v) : order.idxOf v < order.idxOf u := by
  obtain ⟨front, rest, rfl⟩ := List.append_of_mem hv
  have hreverse : (front ++ v :: rest).reverse = rest.reverse ++ v :: front.reverse := by simp
  have hrest : u ∈ rest :=
    List.mem_reverse.mp ((horder rest.reverse v front.reverse hreverse u hu).resolve_right hback)
  rw [List.nodup_append, List.nodup_cons] at hnodup
  obtain ⟨_, ⟨hvrest, _⟩, hapart⟩ := hnodup
  have hvfront : v ∉ front := fun hmem => hapart v hmem v List.mem_cons_self rfl
  have hufront : u ∉ front := fun hmem => hapart u hmem u (List.mem_cons_of_mem v hrest) rfl
  have hne : v ≠ u := fun heq => hvrest (heq ▸ hrest)
  rw [List.idxOf_append_of_notMem hvfront, List.idxOf_append_of_notMem hufront,
    List.idxOf_cons_self, List.idxOf_cons_ne _ hne]
  omega

namespace Search

variable {ahead : Nat → List Nat} {count edges : Nat}

/-! ## Nodes that are open -/

/-- A node has been met and not finished: it is on the stack.  What it leads to has been met or is
above it, and it leads to all that is above it. -/
structure Open (ahead : Nat → List Nat) (met stack : List Nat) (v : Nat) : Prop where
  stacked : v ∈ stack
  pending : ∀ u ∈ ahead v, u ∈ met ∨ u ∈ stack.takeWhile (· ≠ v)
  chain : ∀ u ∈ stack.takeWhile (· ≠ v), LeadsTo ahead v u

section Open

variable {met stack pushed : List Nat} {v w : Nat}

theorem takeWhile_push (hpushed : w ∉ pushed) :
    (pushed ++ stack).takeWhile (· ≠ w) = pushed ++ stack.takeWhile (· ≠ w) := by
  apply List.takeWhile_append_of_pos
  intro u hu
  exact decide_eq_true (fun heq : u = w => hpushed (heq ▸ hu))

theorem takeWhile_cons_ne (hne : v ≠ w) :
    (v :: stack).takeWhile (· ≠ w) = v :: stack.takeWhile (· ≠ w) :=
  List.takeWhile_cons_of_pos (decide_eq_true hne)

theorem Open.pop (hopen : Open ahead met (v :: stack) w) (hne : v ≠ w) (hmet : v ∈ met) :
    Open ahead met stack w where
  stacked := (List.mem_cons.mp hopen.stacked).resolve_left hne.symm
  pending := by
    intro u hu
    have hplace := hopen.pending u hu
    rw [takeWhile_cons_ne hne, List.mem_cons] at hplace
    rcases hplace with hmem | rfl | habove
    · exact Or.inl hmem
    · exact Or.inl hmet
    · exact Or.inr habove
  chain := by
    intro u hu
    apply hopen.chain u
    rw [takeWhile_cons_ne hne]
    exact List.mem_cons_of_mem v hu

theorem Open.push (hopen : Open ahead met (v :: stack) w) (hne : v ≠ w) (hw : w ∉ pushed)
    (hpushed : pushed ⊆ ahead v) : Open ahead (v :: met) (pushed ++ v :: stack) w where
  stacked := List.mem_append_right _ hopen.stacked
  pending := by
    intro u hu
    rw [takeWhile_push hw]
    rcases hopen.pending u hu with hmem | habove
    · exact Or.inl (List.mem_cons_of_mem v hmem)
    · exact Or.inr (List.mem_append_right _ habove)
  chain := by
    have htop : v ∈ (v :: stack).takeWhile (· ≠ w) := by
      rw [takeWhile_cons_ne hne]
      exact List.mem_cons_self
    intro u hu
    rw [takeWhile_push hw, List.mem_append] at hu
    rcases hu with hnew | habove
    · exact (hopen.chain v htop).tail (hpushed hnew)
    · exact hopen.chain u habove

/-- A node that is met on top of the stack. -/
theorem Open.meet (hpushed : ∀ u, u ∈ pushed ↔ u ∈ ahead v ∧ u ∉ v :: met) :
    Open ahead (v :: met) (pushed ++ v :: stack) v := by
  have hfree : v ∉ pushed := fun hmem => ((hpushed v).mp hmem).2 List.mem_cons_self
  have htop : (v :: stack).takeWhile (· ≠ v) = [] :=
    List.takeWhile_cons_of_neg (by simp)
  refine ⟨List.mem_append_right _ List.mem_cons_self, ?_, ?_⟩
  · intro u hu
    rw [takeWhile_push hfree, htop, List.append_nil, hpushed]
    tauto
  · intro u hu
    rw [takeWhile_push hfree, htop, List.append_nil, hpushed] at hu
    exact ReflTransGen.single hu.1

end Open

/-! ## Working off the stack -/

/-- What holds while a stack is worked off. -/
structure Draining (ahead : Nat → List Nat) (count : Nat) (stack : List Nat) (s : Search) :
    Prop where
  met_lt : ∀ v ∈ s.met, v < count
  stack_lt : ∀ v ∈ stack, v < count
  met_nodup : s.met.Nodup
  finished_nodup : s.finished.Nodup
  finished_met : s.finished ⊆ s.met
  opened : ∀ v ∈ s.met, v ∉ s.finished → Open ahead s.met stack v
  settled : Settled ahead s.finished

section Draining

variable {stack : List Nat} {s : Search} {v : Nat}

theorem Draining.start : Draining ahead count [] ⟨[], []⟩ where
  met_lt := by simp
  stack_lt := by simp
  met_nodup := List.nodup_nil
  finished_nodup := List.nodup_nil
  finished_met := List.nil_subset _
  opened := by simp
  settled := Settled.nil ahead

theorem Draining.pop (hs : Draining ahead count (v :: stack) s) (hv : v ∈ s.finished) :
    Draining ahead count stack s where
  met_lt := hs.met_lt
  stack_lt := (List.forall_mem_cons.mp hs.stack_lt).2
  met_nodup := hs.met_nodup
  finished_nodup := hs.finished_nodup
  finished_met := hs.finished_met
  opened := by
    intro w hw hopen
    have hne : v ≠ w := fun heq => hopen (heq ▸ hv)
    exact (hs.opened w hw hopen).pop hne (hs.finished_met hv)
  settled := hs.settled

/-- The open node on top is finished.  What it leads to has been met, and what is open of that is
below it. -/
theorem Draining.finish (hs : Draining ahead count (v :: stack) s) (hmet : v ∈ s.met)
    (hopen : v ∉ s.finished) :
    Draining ahead count stack { s with finished := s.finished ++ [v] } where
  met_lt := hs.met_lt
  stack_lt := (List.forall_mem_cons.mp hs.stack_lt).2
  met_nodup := hs.met_nodup
  finished_nodup := by
    rw [← List.concat_eq_append]
    exact hs.finished_nodup.concat hopen
  finished_met := by
    rw [List.append_subset, List.cons_subset]
    exact ⟨hs.finished_met, hmet, List.nil_subset _⟩
  opened := by
    intro w hw hstill
    rw [List.mem_append, List.mem_singleton, not_or] at hstill
    exact (hs.opened w hw hstill.1).pop (Ne.symm hstill.2) hmet
  settled := by
    apply hs.settled.concat
    intro u hu
    have hplace := (hs.opened v hmet hopen).pending u hu
    rw [List.takeWhile_cons_of_neg (by simp)] at hplace
    have hmem : u ∈ s.met := hplace.resolve_right List.not_mem_nil
    by_cases hfinished : u ∈ s.finished
    · exact Or.inl hfinished
    · right
      by_cases heq : v = u
      · exact heq ▸ ReflTransGen.refl
      · apply (hs.opened u hmem hfinished).chain v
        rw [takeWhile_cons_ne heq]
        exact List.mem_cons_self

theorem Draining.push (hahead : ∀ v < count, ∀ u ∈ ahead v, u < count)
    (hs : Draining ahead count (v :: stack) s) (hnew : v ∉ s.met) {pushed : List Nat}
    (hpushed : ∀ u, u ∈ pushed ↔ u ∈ ahead v ∧ u ∉ v :: s.met) :
    Draining ahead count (pushed ++ v :: stack) { s with met := v :: s.met } where
  met_lt := List.forall_mem_cons.mpr ⟨hs.stack_lt v List.mem_cons_self, hs.met_lt⟩
  stack_lt := by
    rw [List.forall_mem_append]
    refine ⟨fun u hu => ?_, hs.stack_lt⟩
    exact hahead v (hs.stack_lt v List.mem_cons_self) u ((hpushed u).mp hu).1
  met_nodup := List.nodup_cons.mpr ⟨hnew, hs.met_nodup⟩
  finished_nodup := hs.finished_nodup
  finished_met := List.Subset.trans hs.finished_met (List.subset_cons_self v s.met)
  opened := by
    intro w hw hopen
    rcases List.mem_cons.mp hw with rfl | hold
    · exact Open.meet hpushed
    · have hne : v ≠ w := fun heq => hnew (heq ▸ hold)
      have hfree : w ∉ pushed := fun hmem => ((hpushed w).mp hmem).2 hw
      exact (hs.opened w hold hopen).push hne hfree (fun u hu => ((hpushed u).mp hu).1)
  settled := hs.settled

theorem Draining.met_length_lt (hs : Draining ahead count (v :: stack) s) (hnew : v ∉ s.met) :
    s.met.length < count := by
  have hsubset : v :: s.met ⊆ List.range count := by
    rw [List.cons_subset]
    exact ⟨List.mem_range.mpr (hs.stack_lt v List.mem_cons_self),
      fun u hu => List.mem_range.mpr (hs.met_lt u hu)⟩
  have hnodup : (v :: s.met).Nodup := List.nodup_cons.mpr ⟨hnew, hs.met_nodup⟩
  simpa using (hnodup.subperm hsubset).length_le

theorem drain_push {fuel : Nat} (hnew : v ∉ s.met) (hself : v ∉ ahead v) :
    drain ahead (fuel + 1) (v :: stack) s =
      drain ahead fuel
        (((ahead v).filter (fun u => !(v :: s.met).contains u)).reverse ++ v :: stack)
        { s with met := v :: s.met } := by
  simp only [drain, List.contains_iff_mem, hnew, hself, if_false, List.foldl_flip_cons_eq_append']

/-- The stack is worked off when no node leads to itself, and all that was on it has been met. -/
theorem Draining.drain (hahead : ∀ v < count, ∀ u ∈ ahead v, u < count)
    (hself : ∀ v, v ∉ ahead v) (hedges : ∀ v, (ahead v).length ≤ edges) {fuel : Nat}
    (hs : Draining ahead count stack s)
    (hfuel : (count - s.met.length) * (edges + 1) + stack.length ≤ fuel) :
    ∃ last, drain ahead fuel stack s = some last ∧ Draining ahead count [] last ∧
      s.met ⊆ last.met ∧ stack ⊆ last.met := by
  induction fuel generalizing stack s with
  | zero =>
      have hnil : stack = [] := List.length_eq_zero_iff.mp (by omega)
      subst hnil
      exact ⟨s, rfl, hs, List.Subset.refl _, List.nil_subset _⟩
  | succ fuel ih =>
      cases stack with
      | nil => exact ⟨s, rfl, hs, List.Subset.refl _, List.nil_subset _⟩
      | cons v stack =>
          rw [List.length_cons] at hfuel
          by_cases hmet : v ∈ s.met
          · have hrest : ∃ last,
                Search.drain ahead fuel stack
                  (if v ∈ s.finished then s else { s with finished := s.finished ++ [v] }) =
                  some last ∧
                Draining ahead count [] last ∧ s.met ⊆ last.met ∧ stack ⊆ last.met := by
              by_cases hfinished : v ∈ s.finished
              · rw [if_pos hfinished]
                exact ih (hs.pop hfinished) (by omega)
              · rw [if_neg hfinished]
                exact ih (hs.finish hmet hfinished) (Nat.le_of_succ_le_succ hfuel)
            obtain ⟨last, hlast, hdone, hkept, hstack⟩ := hrest
            refine ⟨last, ?_, hdone, hkept, List.cons_subset.mpr ⟨hkept hmet, hstack⟩⟩
            simpa only [Search.drain, List.contains_iff_mem, hmet, if_true] using hlast
          · have hpushed : ∀ u,
                u ∈ ((ahead v).filter (fun u => !(v :: s.met).contains u)).reverse ↔
                  u ∈ ahead v ∧ u ∉ v :: s.met := by
              simp
            have hlt := hs.met_length_lt hmet
            have henough : (count - (v :: s.met).length) * (edges + 1) +
                (((ahead v).filter (fun u => !(v :: s.met).contains u)).reverse ++
                  v :: stack).length ≤ fuel := by
              have hleft : count - s.met.length = count - (s.met.length + 1) + 1 := by omega
              have hfew := (List.length_filter_le (fun u => !(v :: s.met).contains u)
                (ahead v)).trans (hedges v)
              rw [hleft, Nat.succ_mul] at hfuel
              simp only [List.length_append, List.length_reverse, List.length_cons]
              omega
            obtain ⟨last, hlast, hdone, hkept, hstack⟩ :=
              ih (hs.push hahead hmet hpushed) henough
            rw [List.cons_subset] at hkept
            refine ⟨last, ?_, hdone, hkept.2, ?_⟩
            · rw [drain_push hmet (hself v), hlast]
            · exact List.Subset.trans (List.subset_append_right _ _) hstack

/-- A search from some roots meets all of them. -/
theorem Draining.runFrom (hahead : ∀ v < count, ∀ u ∈ ahead v, u < count)
    (hself : ∀ v, v ∉ ahead v) (hedges : ∀ v, (ahead v).length ≤ edges) {roots : List Nat}
    (hroots : ∀ v ∈ roots, v < count) (hs : Draining ahead count [] s) :
    ∃ last, runFrom ahead count edges roots s = some last ∧ Draining ahead count [] last ∧
      s.met ⊆ last.met ∧ roots ⊆ last.met := by
  induction roots generalizing s with
  | nil => exact ⟨s, rfl, hs, List.Subset.refl _, List.nil_subset _⟩
  | cons v roots ih =>
      rw [List.forall_mem_cons] at hroots
      by_cases hmet : v ∈ s.met
      · obtain ⟨last, hlast, hdone, hkept, hrest⟩ := ih hroots.2 hs
        refine ⟨last, ?_, hdone, hkept, List.cons_subset.mpr ⟨hkept hmet, hrest⟩⟩
        simpa only [Search.runFrom, List.contains_iff_mem, hmet, if_true] using hlast
      · have hpushed : Draining ahead count [v] s :=
          { hs with
            stack_lt := List.forall_mem_singleton.mpr hroots.1
            opened := fun w hw hopen => absurd (hs.opened w hw hopen).stacked List.not_mem_nil }
        have henough : (count - s.met.length) * (edges + 1) + [v].length ≤
            count * (edges + 1) + 1 :=
          Nat.succ_le_succ (Nat.mul_le_mul_right _ (Nat.sub_le _ _))
        obtain ⟨first, hfirst, hdone, hkept, hroot⟩ := hpushed.drain hahead hself hedges henough
        obtain ⟨last, hlast, hall, hmore, hrest⟩ := ih hroots.2 hdone
        refine ⟨last, ?_, hall, List.Subset.trans hkept hmore, ?_⟩
        · simp only [Search.runFrom, List.contains_iff_mem, hmet, if_false, hfirst]
          exact hlast
        · exact List.cons_subset.mpr ⟨hmore (hroot List.mem_cons_self), hrest⟩

theorem Draining.mem_met_iff (hs : Draining ahead count [] s) : v ∈ s.met ↔ v ∈ s.finished := by
  refine ⟨fun hmet => ?_, fun hfinished => hs.finished_met hfinished⟩
  by_contra hopen
  exact absurd (hs.opened v hmet hopen).stacked List.not_mem_nil

end Draining

/-- Without an edge from a node to itself, all nodes finish. -/
theorem finishOrder?_spec (hahead : ∀ v < count, ∀ u ∈ ahead v, u < count)
    (hself : ∀ v, v ∉ ahead v) (hedges : ∀ v, (ahead v).length ≤ edges) :
    ∃ order, finishOrder? ahead count edges = some order ∧ order.Perm (List.range count) ∧
      Settled ahead order := by
  obtain ⟨last, hlast, hdone, _, hroots⟩ := Draining.start.runFrom hahead hself hedges
    (fun v hv => List.mem_range.mp hv : ∀ v ∈ List.range count, v < count)
  refine ⟨last.finished, ?_, ?_, hdone.settled⟩
  · rw [finishOrder?, hlast, Option.map_some]
  · rw [List.perm_ext_iff_of_nodup hdone.finished_nodup List.nodup_range]
    intro v
    rw [← hdone.mem_met_iff, List.mem_range]
    exact ⟨hdone.met_lt v, fun hv => hroots (List.mem_range.mpr hv)⟩

/-! ## The second search -/

section Behind

variable {behind : Nat → List Nat} {met : List Nat} {v : Nat}

theorem step?_eq_none_iff {stack : List Nat} :
    step? behind stack met = none ↔ ∀ u ∈ stack, u ∈ met := by
  induction stack with
  | nil => simp [step?]
  | cons u stack ih =>
      rw [List.forall_mem_cons]
      by_cases hu : u ∈ met
      · simp only [step?, List.contains_iff_mem, hu, if_true, ih, true_and]
      · simp [step?, hu]

/-- The search passes a node when all that is behind it has been met. -/
theorem misses_cons_eq_false_iff {order : List Nat} (hnew : v ∉ met) :
    misses behind (v :: order) met = false ↔
      (∀ u ∈ behind v, u ∈ v :: met) ∧ misses behind order (v :: met) = false := by
  have hfirst : step? behind [v] met =
      some (v, ((behind v).filter (fun u => !(v :: met).contains u)).reverse, v :: met) := by
    simp only [step?, List.contains_iff_mem, hnew, if_false, List.foldl_flip_cons_eq_append',
      List.append_nil]
  have hsecond : step? behind
      ((behind v).filter (fun u => !(v :: met).contains u)).reverse (v :: met) = none ↔
        ∀ u ∈ behind v, u ∈ v :: met := by
    rw [step?_eq_none_iff]
    constructor
    · intro hall u hu
      by_contra hout
      exact hout (hall u (List.mem_reverse.mpr (List.mem_filter.mpr ⟨hu, by simpa using hout⟩)))
    · intro hall u hu
      exact hall u (List.mem_filter.mp (List.mem_reverse.mp hu)).1
  simp only [misses, hfirst]
  cases hmore : step? behind
      ((behind v).filter (fun u => !(v :: met).contains u)).reverse (v :: met) with
  | none => exact (and_iff_right (hsecond.mp hmore)).symm
  | some found =>
      have hbehind : ¬ ∀ u ∈ behind v, u ∈ v :: met := by
        rw [← hsecond, hmore]
        exact Option.some_ne_none _
      simp only [hbehind, false_and, Bool.true_eq_false]

theorem misses_eq_false_iff {order : List Nat} (hnodup : order.Nodup)
    (hmet : ∀ v ∈ order, v ∉ met) :
    misses behind order met = false ↔
      ∀ before v after, order = before ++ v :: after →
        ∀ u ∈ behind v, u ∈ met ∨ u ∈ before ∨ u = v := by
  induction order generalizing met with
  | nil => simp [misses]
  | cons v order ih =>
      rw [List.forall_mem_cons] at hmet
      rw [List.nodup_cons] at hnodup
      have hrest : ∀ w ∈ order, w ∉ v :: met := by
        intro w hw hmem
        rcases List.mem_cons.mp hmem with rfl | hold
        · exact hnodup.1 hw
        · exact hmet.2 w hw hold
      rw [misses_cons_eq_false_iff hmet.1, ih hnodup.2 hrest]
      constructor
      · rintro ⟨hfirst, hlater⟩ before w after hsplit u hu
        cases before with
        | nil =>
            rw [List.nil_append, List.cons.injEq] at hsplit
            obtain ⟨rfl, rfl⟩ := hsplit
            rcases List.mem_cons.mp (hfirst u hu) with rfl | hold
            · exact Or.inr (Or.inr rfl)
            · exact Or.inl hold
        | cons x before =>
            rw [List.cons_append, List.cons.injEq] at hsplit
            obtain ⟨rfl, rfl⟩ := hsplit
            have hplace := hlater before w after rfl u hu
            rw [List.mem_cons] at hplace ⊢
            tauto
      · intro hall
        constructor
        · intro u hu
          have hplace := hall [] v order rfl u hu
          rw [List.mem_cons]
          tauto
        · intro before w after hsplit u hu
          have hplace := hall (v :: before) w after (by rw [hsplit, List.cons_append]) u hu
          rw [List.mem_cons] at hplace ⊢
          tauto

theorem mem_before_iff {before after : List Nat} {u : Nat}
    (hnodup : (before ++ v :: after).Nodup) :
    u ∈ before ↔ (before ++ v :: after).idxOf u < (before ++ v :: after).idxOf v := by
  have hv : v ∉ before := fun hmem =>
    (List.nodup_append.mp hnodup).2.2 v hmem v List.mem_cons_self rfl
  rw [List.idxOf_append_of_notMem hv, List.idxOf_cons_self, Nat.add_zero]
  constructor
  · intro hu
    rw [List.idxOf_append_of_mem hu]
    exact List.idxOf_lt_length_of_mem hu
  · intro hlt
    by_contra hu
    rw [List.idxOf_append_of_notMem hu] at hlt
    omega

/-- The second search passes an order when whatever is behind a node is in front of it. -/
theorem misses_iff_idxOf {order : List Nat} (hnodup : order.Nodup) (hself : ∀ v, v ∉ behind v) :
    misses behind order [] = false ↔
      ∀ v ∈ order, ∀ u ∈ behind v, order.idxOf u < order.idxOf v := by
  rw [misses_eq_false_iff hnodup (fun _ _ => List.not_mem_nil)]
  constructor
  · intro hall v hv u hu
    obtain ⟨before, after, rfl⟩ := List.append_of_mem hv
    rcases hall before v after rfl u hu with hnil | hbefore | rfl
    · cases hnil
    · exact (mem_before_iff hnodup).mp hbefore
    · exact absurd hu (hself u)
  · rintro hall before v after rfl u hu
    have hv : v ∈ before ++ v :: after := List.mem_append_right _ List.mem_cons_self
    exact Or.inr (Or.inl ((mem_before_iff hnodup).mpr (hall v hv u hu)))

end Behind

end Search

namespace CausalGraph

variable {α : Type} {g : CausalGraph α}

/-- The first node is in a body of the second one. -/
def Leads (g : CausalGraph α) (v w : Nat) : Prop :=
  (v, w) ∈ g.edges

theorem leads_iff {v w : Nat} :
    g.Leads v w ↔ ∃ body, ((w, body) ∈ g.sums ∨ (w, body) ∈ g.prods) ∧ v ∈ body := by
  simp only [Leads, edges, List.mem_flatMap, List.mem_append, List.mem_map, Prod.mk.injEq]
  constructor
  · rintro ⟨⟨head, body⟩, hd, sub, hsub, rfl, rfl⟩
    exact ⟨body, hd, hsub⟩
  · rintro ⟨body, hd, hsub⟩
    exact ⟨(w, body), hd, v, hsub, rfl, rfl⟩

theorem mem_heads {v w : Nat} : w ∈ g.heads v ↔ g.Leads v w := by
  simp only [heads, Leads, List.mem_reverse, List.mem_map, List.mem_filter, decide_eq_true_iff]
  constructor
  · rintro ⟨⟨sub, head⟩, ⟨hedge, rfl⟩, rfl⟩
    exact hedge
  · intro hedge
    exact ⟨(v, w), ⟨hedge, rfl⟩, rfl⟩

theorem mem_subs {v w : Nat} : v ∈ g.subs w ↔ g.Leads v w := by
  simp only [subs, Leads, List.mem_reverse, List.mem_map, List.mem_filter, decide_eq_true_iff]
  constructor
  · rintro ⟨⟨sub, head⟩, ⟨hedge, rfl⟩, rfl⟩
    exact hedge
  · intro hedge
    exact ⟨(v, w), ⟨hedge, rfl⟩, rfl⟩

theorem leadsTo_heads_iff {v w : Nat} : LeadsTo g.heads v w ↔ ReflTransGen g.Leads v w := by
  unfold LeadsTo
  simp only [mem_heads]

theorem heads_length_le (v : Nat) : (g.heads v).length ≤ g.edges.length := by
  unfold heads
  rw [List.length_reverse, List.length_map]
  exact List.length_filter_le _ _

theorem Coherent.leads_lt (hg : g.Coherent) {v w : Nat} (hleads : g.Leads v w) :
    v < g.nodeCount ∧ w < g.nodeCount := by
  obtain ⟨body, hd | hd, hv⟩ := leads_iff.mp hleads
  · exact ⟨(hg.sums.body _ hd).lt v hv, hg.sums.head_lt _ hd⟩
  · exact ⟨(hg.prods.body _ hd).lt v hv, hg.prods.head_lt _ hd⟩

theorem Coherent.heads_lt (hg : g.Coherent) :
    ∀ v < g.nodeCount, ∀ u ∈ g.heads v, u < g.nodeCount :=
  fun _ _ _ hu => (hg.leads_lt (mem_heads.mp hu)).2

theorem Coherent.not_leads_self (hg : g.Coherent) (v : Nat) : ¬ g.Leads v v := by
  intro hleads
  obtain ⟨body, hd | hd, hv⟩ := leads_iff.mp hleads
  · exact (hg.sums.body _ hd).no_self hv
  · exact (hg.prods.body _ hd).no_self hv

/-! ## The order that is found -/

/-- No node is in its own body, so all nodes finish.  The order that is found is their reverse,
unless the second search stops. -/
theorem Coherent.topologicalOrder?_eq (hg : g.Coherent) :
    ∃ order, order.Perm (List.range g.nodeCount) ∧ Settled g.heads order.reverse ∧
      g.topologicalOrder? = if Search.misses g.subs order [] then none else some order := by
  have hself : ∀ v, v ∉ g.heads v := fun v hv => hg.not_leads_self v (mem_heads.mp hv)
  obtain ⟨order, horder, hperm, hsettled⟩ :=
    Search.finishOrder?_spec hg.heads_lt hself heads_length_le
  refine ⟨order.reverse, (List.reverse_perm order).trans hperm, ?_, ?_⟩
  · rwa [List.reverse_reverse]
  · unfold topologicalOrder?
    rw [horder]
    rfl

theorem Coherent.misses_iff (hg : g.Coherent) {order : List Nat}
    (hperm : order.Perm (List.range g.nodeCount)) :
    Search.misses g.subs order [] = false ↔
      ∀ v w, g.Leads v w → order.idxOf v < order.idxOf w := by
  have hself : ∀ v, v ∉ g.subs v := fun v hv => hg.not_leads_self v (mem_subs.mp hv)
  rw [Search.misses_iff_idxOf (hperm.nodup_iff.mpr List.nodup_range) hself]
  constructor
  · intro hall v w hleads
    have hw : w ∈ order := hperm.mem_iff.mpr (List.mem_range.mpr (hg.leads_lt hleads).2)
    exact hall w hw v (mem_subs.mpr hleads)
  · intro hall w _ v hv
    exact hall v w (mem_subs.mp hv)

/-- Without a cycle there is an order of all nodes with every body in front of its head. -/
theorem exists_topologicalOrder (hg : g.Coherent) (hacyclic : Acyclic g.Leads) :
    ∃ order, g.topologicalOrder? = some order ∧ order.Perm (List.range g.nodeCount) := by
  obtain ⟨order, hperm, hsettled, horder⟩ := hg.topologicalOrder?_eq
  refine ⟨order, ?_, hperm⟩
  have hfront : ∀ v w, g.Leads v w → order.idxOf v < order.idxOf w := by
    intro v w hleads
    have hv : v ∈ order := hperm.mem_iff.mpr (List.mem_range.mpr (hg.leads_lt hleads).1)
    apply hsettled.idxOf_lt (hperm.nodup_iff.mpr List.nodup_range) hv (mem_heads.mpr hleads)
    intro hback
    exact hacyclic v (TransGen.head' hleads (leadsTo_heads_iff.mp hback))
  rw [horder, (hg.misses_iff hperm).mpr hfront]
  rfl

/-- An order that is found has every node once and every body in front of its head. -/
theorem Coherent.topologicalOrder?_spec (hg : g.Coherent) {order : List Nat}
    (horder : g.topologicalOrder? = some order) :
    order.Perm (List.range g.nodeCount) ∧
      ∀ v w, g.Leads v w → order.idxOf v < order.idxOf w := by
  obtain ⟨found, hperm, _, hfound⟩ := hg.topologicalOrder?_eq
  rw [horder] at hfound
  split at hfound
  · cases hfound
  · next hpassed =>
    cases hfound
    exact ⟨hperm, (hg.misses_iff hperm).mp (eq_false_of_ne_true hpassed)⟩

theorem Coherent.topologicalOrder?_isSome_iff (hg : g.Coherent) :
    (∃ order, g.topologicalOrder? = some order) ↔ Acyclic g.Leads := by
  constructor
  · rintro ⟨order, horder⟩
    exact Acyclic.of_rank order.idxOf (hg.topologicalOrder?_spec horder).2
  · intro hacyclic
    obtain ⟨order, horder, _⟩ := exists_topologicalOrder hg hacyclic
    exact ⟨order, horder⟩

end CausalGraph

end DerivationBelief

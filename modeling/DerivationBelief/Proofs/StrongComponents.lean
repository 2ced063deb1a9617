import DerivationBelief.StrongComponents
import Mathlib.Data.List.TakeWhile
import Mathlib.Tactic

/-!
# The components of a search

The nodes that are being visited form a path, and a node waits while it is on the path or on the
stack.  Every node on the stack leads back to the path.  A visit leaves a part of the stack behind
in which every edge ends in a settled node, in the part itself or at a node that waited before with
a number that is not below the lowest of the part.  When the visited node has kept its own number,
the last is impossible: the part is closed, and it is the component of the node.  Otherwise the
lowest number is that of a node that waited before, so the visited node leads back to the path.
-/

namespace DerivationBelief

open Relation

/-- The first node leads to the second one, over any number of edges. -/
def LeadsTo (ahead : Nat → List Nat) (v w : Nat) : Prop :=
  ReflTransGen (fun v u => u ∈ ahead v) v w

/-- The nodes lead to each other, and no others are linked with them. -/
def IsComponent (ahead : Nat → List Nat) (nodes : List Nat) : Prop :=
  ∃ v, ∀ w, w ∈ nodes ↔ LeadsTo ahead v w ∧ LeadsTo ahead w v

namespace ComponentSearch

variable {ahead : Nat → List Nat} {count : Nat}

section Marks

variable (s : ComponentSearch) (v u : Nat) (mark : NodeMark)

@[simp] theorem mark_marks : (s.mark v mark).marks u = if u = v then mark else s.marks u :=
  rfl

@[simp] theorem mark_next : (s.mark v mark).next = s.next :=
  rfl

@[simp] theorem mark_stack : (s.mark v mark).stack = s.stack :=
  rfl

@[simp] theorem mark_components : (s.mark v mark).components = s.components :=
  rfl

@[simp] theorem enter_marks :
    (s.enter v).marks u = if u = v then .waiting s.next else s.marks u :=
  rfl

@[simp] theorem enter_next : (s.enter v).next = s.next + 1 :=
  rfl

@[simp] theorem enter_stack : (s.enter v).stack = s.stack :=
  rfl

@[simp] theorem enter_components : (s.enter v).components = s.components :=
  rfl

end Marks

/-- What holds between visits when the nodes of the path are being visited. -/
structure Held (ahead : Nat → List Nat) (count : Nat) (path : List Nat) (s : ComponentSearch) :
    Prop where
  waiting_iff : ∀ v, (∃ number, s.marks v = .waiting number) ↔ v ∈ path ∨ v ∈ s.stack
  settled_iff : ∀ v, s.marks v = .settled ↔ v ∈ s.components.flatten
  met_lt : ∀ v, s.marks v ≠ .unmet → v < count
  apart : (path ++ s.stack).Nodup
  number_lt : ∀ v number, s.marks v = .waiting number → number < s.next
  back : ∀ v ∈ s.stack, ∃ u ∈ path, LeadsTo ahead v u
  closed : ∀ v, s.marks v = .settled → ∀ u ∈ ahead v, s.marks u = .settled
  components : ∀ nodes ∈ s.components, IsComponent ahead nodes
  nodup : s.components.flatten.Nodup

theorem Held.start : Held ahead count [] start where
  waiting_iff := by simp [ComponentSearch.start]
  settled_iff := by simp [ComponentSearch.start]
  met_lt := by simp [ComponentSearch.start]
  apart := List.nodup_nil
  number_lt := by simp [ComponentSearch.start]
  back := by simp [ComponentSearch.start]
  closed := by simp [ComponentSearch.start]
  components := by simp [ComponentSearch.start]
  nodup := List.nodup_nil

section Held

variable {path : List Nat} {s : ComponentSearch} {v : Nat}

theorem Held.path_length_le (hs : Held ahead count path s) : path.length ≤ count := by
  have hsubset : path ⊆ List.range count := by
    intro u hu
    obtain ⟨number, hnumber⟩ := (hs.waiting_iff u).mpr (Or.inl hu)
    exact List.mem_range.mpr (hs.met_lt u (by simp [hnumber]))
  have hnodup : path.Nodup := (List.nodup_append.mp hs.apart).1
  simpa using (hnodup.subperm hsubset).length_le

theorem Held.settled_of_leadsTo (hs : Held ahead count path s) {u w : Nat}
    (hu : s.marks u = .settled) (hreaches : LeadsTo ahead u w) : s.marks w = .settled := by
  induction hreaches with
  | refl => exact hu
  | tail _ hstep ih => exact hs.closed _ ih _ hstep

/-- A mark on a node that is in no component moves no other node into one or out of one. -/
theorem settled_mark_iff (hv : s.marks v ≠ .settled) {mark : NodeMark} (hmark : mark ≠ .settled)
    (u : Nat) : (s.mark v mark).marks u = .settled ↔ s.marks u = .settled := by
  rw [mark_marks]
  by_cases hu : u = v
  · simp [hu, hv, hmark]
  · simp [hu]

theorem Held.enter (hs : Held ahead count path s) (hv : v < count) (hnew : s.marks v = .unmet) :
    Held ahead count (v :: path) (s.enter v) := by
  have hsettled : ∀ u, (s.enter v).marks u = .settled ↔ s.marks u = .settled :=
    settled_mark_iff (by simp [hnew]) NodeMark.noConfusion
  exact
    { waiting_iff := by
        intro u
        by_cases hu : u = v
        · simp [hu]
        · simpa [hu] using hs.waiting_iff u
      settled_iff := fun u => (hsettled u).trans (hs.settled_iff u)
      met_lt := by
        intro u hu
        by_cases heq : u = v
        · exact heq ▸ hv
        · exact hs.met_lt u (by simpa [heq] using hu)
      apart := by
        have hfree : ¬ (v ∈ path ∨ v ∈ s.stack) := by
          rw [← hs.waiting_iff, hnew]
          simp
        rw [List.cons_append, List.nodup_cons, List.mem_append]
        exact ⟨hfree, hs.apart⟩
      number_lt := by
        intro u number hu
        rw [enter_next]
        by_cases heq : u = v
        · simp only [enter_marks, heq, if_true, NodeMark.waiting.injEq] at hu
          omega
        · have hlt := hs.number_lt u number (by simpa [heq] using hu)
          omega
      back := by
        intro u hu
        obtain ⟨w, hw, hreaches⟩ := hs.back u hu
        exact ⟨w, List.mem_cons_of_mem v hw, hreaches⟩
      closed := fun u hu w hw => (hsettled w).mpr (hs.closed u ((hsettled u).mp hu) w hw)
      components := hs.components
      nodup := hs.nodup }

/-- A node of the path is not on the stack. -/
theorem Held.not_mem_stack (hs : Held ahead count (v :: path) s) : v ∉ s.stack := by
  have happart := hs.apart
  rw [List.cons_append, List.nodup_cons, List.mem_append] at happart
  exact fun hmem => happart.1 (Or.inr hmem)

/-- A node of the path may take over any number that has been given. -/
theorem Held.relabel (hs : Held ahead count path s) (hv : v ∈ path) {low : Nat}
    (hlow : low < s.next) : Held ahead count path (s.mark v (.waiting low)) := by
  obtain ⟨own, hown⟩ := (hs.waiting_iff v).mpr (Or.inl hv)
  have hsettled : ∀ u, (s.mark v (.waiting low)).marks u = .settled ↔ s.marks u = .settled :=
    settled_mark_iff (by simp [hown]) NodeMark.noConfusion
  exact
    { waiting_iff := by
        intro u
        by_cases hu : u = v
        · simp [hu, hv]
        · simpa [hu] using hs.waiting_iff u
      settled_iff := fun u => (hsettled u).trans (hs.settled_iff u)
      met_lt := by
        intro u hu
        by_cases heq : u = v
        · exact hs.met_lt u (by simp [heq, hown])
        · exact hs.met_lt u (by simpa [heq] using hu)
      apart := hs.apart
      number_lt := by
        intro u number hu
        by_cases heq : u = v
        · simp only [mark_marks, heq, if_true, NodeMark.waiting.injEq] at hu
          exact hu ▸ hlow
        · exact hs.number_lt u number (by simpa [heq] using hu)
      back := hs.back
      closed := fun u hu w hw => (hsettled w).mpr (hs.closed u ((hsettled u).mp hu) w hw)
      components := hs.components
      nodup := hs.nodup }

end Held

/-! ## What a visit leaves on the stack -/

/-- The node is settled, or the visit left it, or it waited before, with no number below the
lowest. -/
def Placed (s : ComponentSearch) (v : Nat) (below : List Nat) (low : Nat) (t : ComponentSearch)
    (w : Nat) : Prop :=
  t.marks w = .settled ∨ w ∈ v :: below ∨ ∃ number, s.marks w = .waiting number ∧ low ≤ number

/-- A visit of a node from the first state has done some edges and come to the second one.  The
nodes below are those that it has left on the stack, and the low number is the least of theirs and
its own. -/
structure Visiting (ahead : Nat → List Nat) (s : ComponentSearch) (v : Nat) (done below : List Nat)
    (low : Nat) (t : ComponentSearch) : Prop where
  new : s.marks v = .unmet
  next_eq : t.next = s.next + (below.length + 1)
  keeps : ∀ u, s.marks u ≠ .unmet → t.marks u = s.marks u
  low_le : low ≤ s.next
  fresh : ∀ u ∈ below, s.marks u = .unmet ∧ LeadsTo ahead v u
  least : ∀ u ∈ below, ∀ number, t.marks u = .waiting number → low ≤ number
  origin : low < s.next → ∃ u, s.marks u = .waiting low ∧ LeadsTo ahead v u
  done : ∀ w ∈ done, Placed s v below low t w
  inner : ∀ u ∈ below, ∀ w ∈ ahead u, Placed s v below low t w

/-- The visit of a node while its edges are done. -/
structure Midway (ahead : Nat → List Nat) (count : Nat) (path : List Nat) (s : ComponentSearch)
    (v : Nat) (done below : List Nat) (low : Nat) (state : ComponentSearch × Bool) : Prop
    extends Visiting ahead s v done below low state.1 where
  held : Held ahead count (v :: path) state.1
  stack_eq : state.1.stack = below ++ s.stack
  low_eq : state.1.marks v = .waiting low
  root_iff : state.2 = true ↔ low = s.next

/-- The visit of a node is over: the node is settled, or it waits on the stack with the number of a
node that waited before. -/
structure Visited (ahead : Nat → List Nat) (count : Nat) (path : List Nat) (s : ComponentSearch)
    (v : Nat) (t : ComponentSearch) : Prop where
  held : Held ahead count path t
  keeps : ∀ u, s.marks u ≠ .unmet → t.marks u = s.marks u
  outcome : (t.marks v = .settled ∧ t.stack = s.stack ∧ t.next = s.next) ∨
    ∃ below low, low < s.next ∧ t.stack = v :: below ++ s.stack ∧ t.marks v = .waiting low ∧
      Visiting ahead s v (ahead v) below low t

section Visits

variable {path done below more : List Nat} {s t last : ComponentSearch} {v w low bound : Nat}
  {state : ComponentSearch × Bool}

theorem Placed.mono (hplaced : Placed s v below low t w)
    (hsettled : t.marks w = .settled → last.marks w = .settled) (hbelow : below ⊆ more)
    (hlow : bound ≤ low) : Placed s v more bound last w := by
  rcases hplaced with hdone | hmem | ⟨number, hnumber, hle⟩
  · exact Or.inl (hsettled hdone)
  · exact Or.inr (Or.inl (List.cons_subset_cons v hbelow hmem))
  · exact Or.inr (Or.inr ⟨number, hnumber, hlow.trans hle⟩)

/-- The mark of the visited node itself is of no concern. -/
theorem Visiting.mark (hvisit : Visiting ahead s v done below low t) (hv : t.marks v ≠ .settled)
    (hbelow : v ∉ below) {mark : NodeMark} (hmark : mark ≠ .settled) :
    Visiting ahead s v done below low (t.mark v mark) := by
  have hplaced : ∀ u, Placed s v below low t u → Placed s v below low (t.mark v mark) u :=
    fun u hu => hu.mono (settled_mark_iff hv hmark u).mpr (List.Subset.refl _) (Nat.le_refl _)
  exact
    { hvisit with
      keeps := by
        intro u hu
        have hne : u ≠ v := fun heq => hu (heq ▸ hvisit.new)
        rw [mark_marks, if_neg hne]
        exact hvisit.keeps u hu
      least := by
        intro u hu number hnumber
        have hne : u ≠ v := fun heq => hbelow (heq ▸ hu)
        rw [mark_marks, if_neg hne] at hnumber
        exact hvisit.least u hu number hnumber
      done := fun u hu => hplaced u (hvisit.done u hu)
      inner := fun u hu x hx => hplaced x (hvisit.inner u hu x hx) }

theorem Midway.enter (hs : Held ahead count path s) (hv : v < count)
    (hnew : s.marks v = .unmet) : Midway ahead count path s v [] [] s.next (s.enter v, true) where
  new := hnew
  next_eq := rfl
  keeps := by
    intro u hu
    have hne : u ≠ v := fun heq => hu (heq ▸ hnew)
    rw [enter_marks, if_neg hne]
  low_le := Nat.le_refl _
  fresh := by simp
  least := by simp
  origin := fun hlt => absurd hlt (Nat.lt_irrefl _)
  done := by simp
  inner := by simp
  held := hs.enter hv hnew
  stack_eq := rfl
  low_eq := by rw [enter_marks, if_pos rfl]
  root_iff := by simp

theorem Midway.below_waiting (hstate : Midway ahead count path s v done below low state)
    {u : Nat} (hu : u ∈ v :: below) :
    ∃ number, state.1.marks u = .waiting number ∧ low ≤ number := by
  rcases List.mem_cons.mp hu with rfl | hu
  · exact ⟨low, hstate.low_eq, Nat.le_refl _⟩
  · have hstack : u ∈ state.1.stack := by
      rw [hstate.stack_eq]
      exact List.mem_append_left _ hu
    obtain ⟨number, hnumber⟩ := (hstate.held.waiting_iff u).mpr (Or.inr hstack)
    exact ⟨number, hnumber, hstate.least u hu number hnumber⟩

theorem Visiting.unmet (hvisit : Visiting ahead s v done below low t) {u : Nat}
    (hu : u ∈ v :: below) : s.marks u = .unmet := by
  rcases List.mem_cons.mp hu with rfl | hu
  · exact hvisit.new
  · exact (hvisit.fresh u hu).1

theorem Visiting.placed (hvisit : Visiting ahead s v (ahead v) below low t) {u : Nat}
    (hu : u ∈ v :: below) (hw : w ∈ ahead u) : Placed s v below low t w := by
  rcases List.mem_cons.mp hu with rfl | hu
  · exact hvisit.done w hw
  · exact hvisit.inner u hu w hw

/-- What waits was left by the visit, or it waited before with the same number. -/
theorem Midway.of_waiting (hstate : Midway ahead count path s v done below low state)
    (hs : Held ahead count path s) {u number : Nat} (hu : state.1.marks u = .waiting number) :
    (u ∈ v :: below ∧ low ≤ number) ∨ s.marks u = .waiting number := by
  by_cases hbelow : u ∈ v :: below
  · obtain ⟨other, hother, hle⟩ := hstate.below_waiting hbelow
    rw [hu, NodeMark.waiting.injEq] at hother
    exact Or.inl ⟨hbelow, hother ▸ hle⟩
  · right
    have hmem := (hstate.held.waiting_iff u).mp ⟨number, hu⟩
    rw [hstate.stack_eq, List.mem_cons, List.mem_append] at hmem
    rw [List.mem_cons, not_or] at hbelow
    obtain ⟨other, hother⟩ := (hs.waiting_iff u).mpr (by tauto)
    rw [← hu, hstate.keeps u (by simp [hother])]

/-! ## One edge -/

theorem lower_settled (hw : state.1.marks w = .settled) :
    lower state v w = state := by
  simp [lower, hw, NodeMark.below]

theorem mark_same {mark : NodeMark} (hv : s.marks v = mark) : s.mark v mark = s := by
  have hmarks : (fun u => if u = v then mark else s.marks u) = s.marks := by
    funext u
    by_cases hu : u = v
    · rw [if_pos hu, hu, hv]
    · rw [if_neg hu]
  unfold ComponentSearch.mark
  rw [hmarks]

theorem lower_waiting {number : Nat} (hv : state.1.marks v = .waiting low)
    (hw : state.1.marks w = .waiting number) :
    lower state v w =
      (state.1.mark v (.waiting (min low number)), state.2 && decide (low ≤ number)) := by
  unfold lower
  by_cases hlt : number < low
  · have hmin : min low number = number := by omega
    simp [hv, hw, NodeMark.below, hlt, hmin, Nat.not_le.mpr hlt]
  · have hmin : min low number = low := by omega
    simp [hv, hw, NodeMark.below, hlt, mark_same hv, Nat.not_lt.mp hlt]

/-- The edge ends in a settled node. -/
theorem Midway.pass (hstate : Midway ahead count path s v done below low state)
    (hw : state.1.marks w = .settled) :
    Midway ahead count path s v (done ++ [w]) below low (lower state v w) := by
  rw [lower_settled hw]
  refine { hstate with done := ?_ }
  rw [List.forall_mem_append, List.forall_mem_singleton]
  exact ⟨hstate.done, Or.inl hw⟩

/-- The visited node takes over the number of the node that its edge ends in. -/
theorem Midway.adopt (held : Held ahead count (v :: path) t)
    (hstack : t.stack = below ++ s.stack) (hv : t.marks v = .waiting low) {root : Bool}
    (hroot : root = true ↔ low = s.next) (hle : low ≤ s.next) {number : Nat}
    (hw : t.marks w = .waiting number)
    (hvisit : Visiting ahead s v done below (min low number) t) :
    Midway ahead count path s v done below (min low number) (lower (t, root) v w) := by
  have hbelow : v ∉ below := by
    intro hmem
    apply held.not_mem_stack
    rw [hstack]
    exact List.mem_append_left s.stack hmem
  have hlt : min low number < t.next :=
    (Nat.min_le_left _ _).trans_lt (held.number_lt v low hv)
  rw [lower_waiting hv hw]
  exact
    { hvisit.mark (by simp [hv]) hbelow NodeMark.noConfusion with
      held := held.relabel List.mem_cons_self hlt
      stack_eq := hstack
      low_eq := by rw [mark_marks, if_pos rfl]
      root_iff := by
        rw [Bool.and_eq_true, hroot, decide_eq_true_iff]
        omega }

/-- The edge ends in a node that has been waiting. -/
theorem Midway.meet (hstate : Midway ahead count path s v done below low state)
    (hs : Held ahead count path s) {number : Nat} (hw : state.1.marks w = .waiting number)
    (hedge : w ∈ ahead v) :
    Midway ahead count path s v (done ++ [w]) below (min low number)
      (lower state v w) := by
  have hmono : ∀ u, Placed s v below low state.1 u → Placed s v below (min low number) state.1 u :=
    fun u hu => hu.mono id (List.Subset.refl _) (Nat.min_le_left _ _)
  refine Midway.adopt hstate.held hstate.stack_eq hstate.low_eq hstate.root_iff hstate.low_le hw ?_
  exact
    { hstate with
      low_le := (Nat.min_le_left _ _).trans hstate.low_le
      least := fun u hu other hother =>
        (Nat.min_le_left _ _).trans (hstate.least u hu other hother)
      origin := by
        intro hlt
        by_cases hle : low ≤ number
        · rw [Nat.min_eq_left hle] at hlt ⊢
          exact hstate.origin hlt
        · rw [Nat.min_eq_right (Nat.le_of_not_le hle)]
          rcases hstate.of_waiting hs hw with hbelow | hold
          · exact absurd hbelow.2 hle
          · exact ⟨w, hold, ReflTransGen.single hedge⟩
      done := by
        rw [List.forall_mem_append, List.forall_mem_singleton]
        refine ⟨fun u hu => hmono u (hstate.done u hu), ?_⟩
        rcases hstate.of_waiting hs hw with hbelow | hold
        · exact Or.inr (Or.inl hbelow.1)
        · exact Or.inr (Or.inr ⟨number, hold, Nat.min_le_right _ _⟩)
      inner := fun u hu x hx => hmono x (hstate.inner u hu x hx) }

/-- The edge ends in a new node, and the visit of that node settles it. -/
theorem Midway.settle (hstate : Midway ahead count path s v done below low state)
    (hchild : Visited ahead count (v :: path) state.1 w last) (hw : last.marks w = .settled)
    (hstack : last.stack = state.1.stack) (hnext : last.next = state.1.next) :
    Midway ahead count path s v (done ++ [w]) below low (lower (last, state.2) v w) := by
  have hkept : ∀ u, state.1.marks u ≠ .unmet → last.marks u = state.1.marks u := hchild.keeps
  have hmono : ∀ u, Placed s v below low state.1 u → Placed s v below low last u := by
    intro u hu
    refine hu.mono ?_ (List.Subset.refl _) (Nat.le_refl _)
    intro hsettled
    rw [hkept u (by simp [hsettled]), hsettled]
  have hlast : Midway ahead count path s v done below low (last, state.2) :=
    { hstate with
      next_eq := hnext.trans hstate.next_eq
      keeps := by
        intro u hu
        have hold := hstate.keeps u hu
        rw [← hold]
        exact hkept u (by rwa [hold])
      least := by
        intro u hu number hnumber
        obtain ⟨own, hown, hle⟩ := hstate.below_waiting (List.mem_cons_of_mem v hu)
        rw [hkept u (by simp [hown]), hown, NodeMark.waiting.injEq] at hnumber
        exact hnumber ▸ hle
      done := fun u hu => hmono u (hstate.done u hu)
      inner := fun u hu x hx => hmono x (hstate.inner u hu x hx)
      held := hchild.held
      stack_eq := hstack.trans hstate.stack_eq
      low_eq := by rw [hkept v (by simp [hstate.low_eq]), hstate.low_eq]
      root_iff := hstate.root_iff }
  exact hlast.pass hw

/-- The edge ends in a new node, and the visit of that node leaves it waiting. -/
theorem Midway.descend (hstate : Midway ahead count path s v done below low state)
    (hs : Held ahead count path s) (hedge : w ∈ ahead v)
    (hchild : Visited ahead count (v :: path) state.1 w last) {inner : List Nat} {number : Nat}
    (hstack : last.stack = w :: inner ++ state.1.stack) (hw : last.marks w = .waiting number)
    (hinner : Visiting ahead state.1 w (ahead w) inner number last) :
    Midway ahead count path s v (done ++ [w]) (w :: inner ++ below) (min low number)
      (lower (last, state.2) v w) := by
  have hkept : ∀ u, state.1.marks u ≠ .unmet → last.marks u = state.1.marks u := hchild.keeps
  have hunmet : ∀ u, state.1.marks u = .unmet → s.marks u = .unmet := by
    intro u hu
    by_contra hmet
    exact hmet (by rw [← hstate.keeps u hmet, hu])
  have hmono : ∀ u, Placed s v below low state.1 u →
      Placed s v (w :: inner ++ below) (min low number) last u := by
    intro u hu
    refine hu.mono ?_ (List.subset_append_right _ _) (Nat.min_le_left _ _)
    intro hsettled
    rw [hkept u (by simp [hsettled]), hsettled]
  -- What is placed for the inner visit may have been left by this one.
  have hplaced : ∀ u, Placed state.1 w inner number last u →
      Placed s v (w :: inner ++ below) (min low number) last u := by
    rintro u (hsettled | hmem | ⟨other, hother, hle⟩)
    · exact Or.inl hsettled
    · exact Or.inr (Or.inl (List.mem_cons_of_mem v (List.mem_append_left below hmem)))
    · rcases hstate.of_waiting hs hother with hbelow | hold
      · exact Or.inr (Or.inl
          (List.cons_subset_cons v (List.subset_append_right (w :: inner) below) hbelow.1))
      · exact Or.inr (Or.inr ⟨other, hold, (Nat.min_le_right _ _).trans hle⟩)
  have hlow : last.marks v = .waiting low := by
    rw [hkept v (by simp [hstate.low_eq]), hstate.low_eq]
  refine Midway.adopt hchild.held ?_ hlow hstate.root_iff hstate.low_le hw ?_
  · rw [hstack, hstate.stack_eq, List.append_assoc]
  exact
    { new := hstate.new
      next_eq := by
        rw [hinner.next_eq, hstate.next_eq, List.cons_append, List.length_cons, List.length_append]
        omega
      keeps := by
        intro u hu
        have hold := hstate.keeps u hu
        rw [← hold]
        exact hkept u (by rwa [hold])
      low_le := (Nat.min_le_left _ _).trans hstate.low_le
      fresh := by
        rw [List.cons_append, List.forall_mem_cons, List.forall_mem_append]
        refine ⟨⟨hunmet w hinner.new, ReflTransGen.single hedge⟩, ?_, hstate.fresh⟩
        intro u hu
        obtain ⟨hnew, hreaches⟩ := hinner.fresh u hu
        exact ⟨hunmet u hnew, ReflTransGen.head hedge hreaches⟩
      least := by
        rw [List.cons_append, List.forall_mem_cons, List.forall_mem_append]
        refine ⟨?_, ?_, ?_⟩
        · intro other hother
          rw [hw, NodeMark.waiting.injEq] at hother
          exact hother ▸ Nat.min_le_right _ _
        · intro u hu other hother
          exact (Nat.min_le_right _ _).trans (hinner.least u hu other hother)
        · intro u hu other hother
          obtain ⟨own, hown, hle⟩ := hstate.below_waiting (List.mem_cons_of_mem v hu)
          rw [hkept u (by simp [hown]), hown, NodeMark.waiting.injEq] at hother
          exact hother ▸ (Nat.min_le_left _ _).trans hle
      origin := by
        intro hlt
        by_cases hle : low ≤ number
        · rw [Nat.min_eq_left hle] at hlt ⊢
          exact hstate.origin hlt
        · rw [Nat.min_eq_right (Nat.le_of_not_le hle)]
          have hfirst : number < state.1.next := by
            have hown := hstate.held.number_lt v low hstate.low_eq
            omega
          obtain ⟨u, hu, hreaches⟩ := hinner.origin hfirst
          rcases hstate.of_waiting hs hu with hbelow | hold
          · exact absurd hbelow.2 hle
          · exact ⟨u, hold, ReflTransGen.head hedge hreaches⟩
      done := by
        rw [List.forall_mem_append, List.forall_mem_singleton]
        refine ⟨fun u hu => hmono u (hstate.done u hu), Or.inr (Or.inl ?_)⟩
        exact List.mem_cons_of_mem v List.mem_cons_self
      inner := by
        rw [List.cons_append, List.forall_mem_cons, List.forall_mem_append]
        exact ⟨fun x hx => hplaced x (hinner.done x hx),
          fun u hu x hx => hplaced x (hinner.inner u hu x hx),
          fun u hu x hx => hmono x (hstate.inner u hu x hx)⟩ }

/-- Whatever is found behind an edge, the visit goes on. -/
theorem Midway.step (hstate : Midway ahead count path s v done below low state)
    (hs : Held ahead count path s) (hedge : w ∈ ahead v)
    (hvisit : state.1.marks w = .unmet → Visited ahead count (v :: path) state.1 w last) :
    ∃ below low, Midway ahead count path s v (done ++ [w]) below low
      (lower (if state.1.marks w = .unmet then last else state.1, state.2) v w) := by
  cases hw : state.1.marks w with
  | unmet =>
      rw [if_pos rfl]
      have hchild := hvisit hw
      rcases hchild.outcome with
        ⟨hsettled, hstack, hnext⟩ | ⟨inner, number, _, hstack, hmark, hinner⟩
      · exact ⟨below, low, hstate.settle hchild hsettled hstack hnext⟩
      · exact ⟨_, _, hstate.descend hs hedge hchild hstack hmark hinner⟩
  | waiting number =>
      rw [if_neg NodeMark.noConfusion]
      exact ⟨below, _, hstate.meet hs hw hedge⟩
  | settled =>
      rw [if_neg NodeMark.noConfusion]
      exact ⟨below, low, hstate.pass hw⟩

/-! ## The end of a visit -/

theorem Midway.joined_eq (hstate : Midway ahead count path s v done below s.next state)
    (hs : Held ahead count path s) : state.1.joined v = below := by
  have habove : ∀ u ∈ below, (!(state.1.marks u).below (state.1.marks v)) = true := by
    intro u hu
    obtain ⟨number, hnumber, hle⟩ := hstate.below_waiting (List.mem_cons_of_mem v hu)
    simp [hnumber, hstate.low_eq, NodeMark.below, hle]
  have hunder : s.stack.takeWhile (fun u => !(state.1.marks u).below (state.1.marks v)) = [] := by
    rw [List.takeWhile_eq_nil_iff]
    intro hpos hfirst
    obtain ⟨number, hnumber⟩ := (hs.waiting_iff s.stack[0]).mpr (Or.inr (List.getElem_mem hpos))
    have hlt := hs.number_lt _ number hnumber
    have hkept := hstate.keeps s.stack[0] (by simp [hnumber])
    simp [hkept, hnumber, hstate.low_eq, NodeMark.below, hlt] at hfirst
  unfold joined
  rw [hstate.stack_eq, List.takeWhile_append_of_pos habove, hunder, List.append_nil]

/-- No node that waited before has a number as high as that of the visited node. -/
theorem Placed.of_root (hs : Held ahead count path s) (hw : Placed s v below s.next t w) :
    w ∈ v :: below ∨ t.marks w = .settled := by
  rcases hw with hdone | hmem | ⟨number, hnumber, hle⟩
  · exact Or.inr hdone
  · exact Or.inl hmem
  · exact absurd (hs.number_lt w number hnumber) (Nat.not_lt.mpr hle)

/-- A node that has kept its own number is linked with what the visit left and with nothing else. -/
theorem Midway.isComponent (hstate : Midway ahead count path s v (ahead v) below s.next state)
    (hs : Held ahead count path s) (hchain : ∀ u ∈ path, LeadsTo ahead u v) :
    IsComponent ahead (below.reverse ++ [v]) := by
  have hforward : ∀ w, LeadsTo ahead v w → w ∈ v :: below ∨ state.1.marks w = .settled := by
    intro w hreaches
    induction hreaches with
    | refl => exact Or.inl List.mem_cons_self
    | tail _ hstep ih =>
        rcases ih with hmem | hdone
        · exact (hstate.placed hmem hstep).of_root hs
        · exact Or.inr (hstate.held.closed _ hdone _ hstep)
  refine ⟨v, fun w => ?_⟩
  rw [List.mem_append, List.mem_reverse, List.mem_singleton]
  constructor
  · rintro (hbelow | rfl)
    · refine ⟨(hstate.fresh w hbelow).2, ?_⟩
      have hstack : w ∈ state.1.stack := by
        rw [hstate.stack_eq]
        exact List.mem_append_left _ hbelow
      obtain ⟨u, hu, hreaches⟩ := hstate.held.back w hstack
      rcases List.mem_cons.mp hu with rfl | hpath
      · exact hreaches
      · exact hreaches.trans (hchain u hpath)
    · exact ⟨ReflTransGen.refl, ReflTransGen.refl⟩
  · rintro ⟨hahead, hback⟩
    rcases hforward w hahead with hmem | hdone
    · exact (List.mem_cons.mp hmem).symm
    · have hv := hstate.held.settled_of_leadsTo hdone hback
      rw [hstate.low_eq] at hv
      cases hv

theorem members_perm (below : List Nat) (v : Nat) : (below.reverse ++ [v]).Perm (v :: below) :=
  (List.perm_append_singleton v below.reverse).trans ((List.reverse_perm below).cons v)

section Close

variable (hjoined : t.joined v = below)
include hjoined

theorem close_marks (u : Nat) :
    (t.close v).marks u = if u ∈ v :: below then .settled else t.marks u := by
  simp only [close, hjoined, List.contains_iff_mem, (members_perm below v).mem_iff]

theorem close_next : (t.close v).next = t.next - (below.length + 1) := by
  simp only [close, hjoined, List.length_append, List.length_reverse, List.length_singleton]

theorem close_stack : (t.close v).stack = t.stack.drop below.length := by
  simp only [close, hjoined]

theorem close_components : (t.close v).components = t.components ++ [below.reverse ++ [v]] := by
  simp only [close, hjoined]

end Close

/-- The root settles its component, and what waited before still does. -/
theorem Midway.close_held (hstate : Midway ahead count path s v (ahead v) below s.next state)
    (hs : Held ahead count path s) (hchain : ∀ u ∈ path, LeadsTo ahead u v) :
    Held ahead count path (state.1.close v) := by
  have hjoined := hstate.joined_eq hs
  have hin : ∀ u ∈ v :: below, (state.1.close v).marks u = .settled :=
    fun u hu => by rw [close_marks hjoined, if_pos hu]
  have hout : ∀ u, u ∉ v :: below → (state.1.close v).marks u = state.1.marks u :=
    fun u hu => by rw [close_marks hjoined, if_neg hu]
  have hstack : (state.1.close v).stack = s.stack := by
    rw [close_stack hjoined, hstate.stack_eq, List.drop_left]
  have hnext : (state.1.close v).next = s.next := by
    rw [close_next hjoined, hstate.next_eq, Nat.add_sub_cancel]
  have hflatten : (state.1.close v).components.flatten =
      state.1.components.flatten ++ (below.reverse ++ [v]) := by
    rw [close_components hjoined, List.flatten_append, List.flatten_singleton]
  exact
    { waiting_iff := by
        intro u
        rw [hstack]
        by_cases hu : u ∈ v :: below
        · have hfree : ¬ (u ∈ path ∨ u ∈ s.stack) := by
            rw [← hs.waiting_iff, hstate.unmet hu]
            rintro ⟨number, hnumber⟩
            cases hnumber
          simp [hin u hu, hfree]
        · rw [hout u hu, hstate.held.waiting_iff, hstate.stack_eq, List.mem_append]
          rw [List.mem_cons] at hu ⊢
          tauto
      settled_iff := by
        intro u
        rw [hflatten, List.mem_append, (members_perm below v).mem_iff]
        by_cases hu : u ∈ v :: below
        · simp only [hin u hu, hu, or_true]
        · rw [hout u hu, hstate.held.settled_iff, or_iff_left hu]
      met_lt := by
        intro u hmet
        by_cases hu : u ∈ v :: below
        · obtain ⟨number, hnumber, _⟩ := hstate.below_waiting hu
          exact hstate.held.met_lt u (by simp [hnumber])
        · exact hstate.held.met_lt u (hout u hu ▸ hmet)
      apart := by
        rw [hstack]
        exact hs.apart
      number_lt := by
        intro u number hnumber
        have hu : u ∉ v :: below := by
          intro hu
          rw [hin u hu] at hnumber
          cases hnumber
        rw [hout u hu] at hnumber
        rw [hnext]
        rcases hstate.of_waiting hs hnumber with hbelow | hold
        · exact absurd hbelow.1 hu
        · exact hs.number_lt u number hold
      back := by
        rw [hstack]
        exact hs.back
      closed := by
        have hsettled : ∀ u, u ∈ v :: below ∨ state.1.marks u = .settled →
            (state.1.close v).marks u = .settled := by
          intro u hu
          by_cases hmem : u ∈ v :: below
          · exact hin u hmem
          · rw [hout u hmem]
            exact hu.resolve_left hmem
        intro u hdone w hw
        apply hsettled
        by_cases hu : u ∈ v :: below
        · exact (hstate.placed hu hw).of_root hs
        · rw [hout u hu] at hdone
          exact Or.inr (hstate.held.closed u hdone w hw)
      components := by
        rw [close_components hjoined, List.forall_mem_append, List.forall_mem_singleton]
        exact ⟨hstate.held.components, hstate.isComponent hs hchain⟩
      nodup := by
        rw [hflatten, List.nodup_append]
        refine ⟨hstate.held.nodup, ?_, ?_⟩
        · have hnodup : (v :: (path ++ (below ++ s.stack))).Nodup := by
            rw [← hstate.stack_eq]
            exact hstate.held.apart
          have hsub : (v :: below).Sublist (v :: (path ++ (below ++ s.stack))) :=
            ((List.sublist_append_left below s.stack).trans
              (List.sublist_append_right path _)).cons_cons v
          exact (members_perm below v).nodup_iff.mpr (hnodup.sublist hsub)
        · rintro u hu w hw rfl
          obtain ⟨number, hnumber, _⟩ :=
            hstate.below_waiting ((members_perm below v).mem_iff.mp hw)
          rw [← hstate.held.settled_iff, hnumber] at hu
          cases hu }

theorem Midway.close (hstate : Midway ahead count path s v (ahead v) below s.next state)
    (hs : Held ahead count path s) (hchain : ∀ u ∈ path, LeadsTo ahead u v) :
    Visited ahead count path s v (state.1.close v) where
  held := hstate.close_held hs hchain
  keeps := by
    intro u hu
    have hmem : u ∉ v :: below := fun hmem => hu (hstate.unmet hmem)
    rw [close_marks (hstate.joined_eq hs), if_neg hmem]
    exact hstate.keeps u hu
  outcome := by
    refine Or.inl ⟨?_, ?_, ?_⟩
    · rw [close_marks (hstate.joined_eq hs), if_pos List.mem_cons_self]
    · rw [close_stack (hstate.joined_eq hs), hstate.stack_eq, List.drop_left]
    · rw [close_next (hstate.joined_eq hs), hstate.next_eq, Nat.add_sub_cancel]

/-- A node that has taken over a number is put on the stack. -/
theorem Midway.push (hstate : Midway ahead count path s v (ahead v) below low state)
    (hs : Held ahead count path s) (hchain : ∀ u ∈ path, LeadsTo ahead u v) (hlow : low < s.next) :
    Visited ahead count path s v { state.1 with stack := v :: state.1.stack } := by
  have hback : ∃ u ∈ path, LeadsTo ahead v u := by
    obtain ⟨u, hu, hreaches⟩ := hstate.origin hlow
    rcases (hs.waiting_iff u).mp ⟨low, hu⟩ with hpath | hstack
    · exact ⟨u, hpath, hreaches⟩
    · obtain ⟨w, hw, hrest⟩ := hs.back u hstack
      exact ⟨w, hw, hreaches.trans hrest⟩
  refine ⟨?_, hstate.keeps, Or.inr ⟨below, low, hlow, ?_, hstate.low_eq, ?_⟩⟩
  · exact
      { hstate.held with
        waiting_iff := by
          intro u
          rw [hstate.held.waiting_iff, List.mem_cons, List.mem_cons]
          tauto
        apart := List.perm_middle.nodup_iff.mpr hstate.held.apart
        back := by
          rw [List.forall_mem_cons]
          refine ⟨hback, fun u hu => ?_⟩
          obtain ⟨w, hw, hreaches⟩ := hstate.held.back u hu
          rcases List.mem_cons.mp hw with rfl | hpath
          · obtain ⟨x, hx, hrest⟩ := hback
            exact ⟨x, hx, hreaches.trans hrest⟩
          · exact ⟨w, hpath, hreaches⟩ }
  · rw [hstate.stack_eq, List.cons_append]
  · exact
      { hstate with }

theorem Midway.leave (hstate : Midway ahead count path s v (ahead v) below low state)
    (hs : Held ahead count path s) (hchain : ∀ u ∈ path, LeadsTo ahead u v) :
    Visited ahead count path s v (leave state v) := by
  unfold ComponentSearch.leave
  by_cases hroot : low = s.next
  · subst hroot
    rw [if_pos (hstate.root_iff.mpr rfl)]
    exact hstate.close hs hchain
  · rw [if_neg (fun htrue => hroot (hstate.root_iff.mp htrue))]
    exact hstate.push hs hchain (Nat.lt_of_le_of_ne hstate.low_le hroot)

/-! ## Whole visits -/

/-- A visit settles its node or leaves it waiting, whatever is on the path. -/
theorem visit_visited (hahead : ∀ v < count, ∀ u ∈ ahead v, u < count) {fuel : Nat}
    (hs : Held ahead count path s) (hv : v < count) (hnew : s.marks v = .unmet)
    (hchain : ∀ u ∈ path, LeadsTo ahead u v) (hfuel : count < fuel + path.length) :
    Visited ahead count path s v (visit ahead fuel s v) := by
  induction fuel generalizing path s v with
  | zero =>
      have hle := hs.path_length_le
      omega
  | succ fuel ih =>
      have hchains : ∀ w ∈ ahead v, ∀ u ∈ v :: path, LeadsTo ahead u w := by
        intro w hw
        rw [List.forall_mem_cons]
        exact ⟨ReflTransGen.single hw, fun u hu => (hchain u hu).tail hw⟩
      -- The edges are done one after another.
      have hedges : ∀ (targets done below : List Nat) (low : Nat) (state : ComponentSearch × Bool),
          Midway ahead count path s v done below low state → targets ⊆ ahead v →
          ∃ below low, Midway ahead count path s v (done ++ targets) below low
            (targets.foldl
              (fun state w =>
                lower (if state.1.marks w = .unmet then visit ahead fuel state.1 w else state.1,
                  state.2) v w)
              state) := by
        intro targets
        induction targets with
        | nil =>
            intro done below low state hstate _
            rw [List.append_nil]
            exact ⟨below, low, hstate⟩
        | cons w targets ihTargets =>
            intro done below low state hstate hsub
            rw [List.cons_subset] at hsub
            have hvisit : state.1.marks w = .unmet →
                Visited ahead count (v :: path) state.1 w (visit ahead fuel state.1 w) := by
              intro hw
              exact ih hstate.held (hahead v hv w hsub.1) hw (hchains w hsub.1)
                (by rw [List.length_cons]; omega)
            obtain ⟨below, low, hnext⟩ := hstate.step hs hsub.1 hvisit
            have hrest := ihTargets _ _ _ _ hnext hsub.2
            rwa [List.append_assoc] at hrest
      obtain ⟨below, low, hlast⟩ :=
        hedges (ahead v) [] [] s.next _ (Midway.enter hs hv hnew) (List.Subset.refl _)
      exact hlast.leave hs hchain

theorem Visited.met (hvisit : Visited ahead count path s v t) : t.marks v ≠ .unmet := by
  rcases hvisit.outcome with ⟨hsettled, _⟩ | ⟨_, _, _, _, hwaiting, _⟩
  · simp [hsettled]
  · simp [hwaiting]

/-- A search from some roots meets all of them. -/
theorem foldl_visit_held (hahead : ∀ v < count, ∀ u ∈ ahead v, u < count) {roots : List Nat}
    (hroots : ∀ v ∈ roots, v < count) (hs : Held ahead count [] s)
    (hlast : roots.foldl
      (fun s v => if s.marks v = .unmet then visit ahead (count + 1) s v else s) s = last) :
    Held ahead count [] last ∧ (∀ u, s.marks u ≠ .unmet → last.marks u ≠ .unmet) ∧
      ∀ v ∈ roots, last.marks v ≠ .unmet := by
  induction roots generalizing s with
  | nil =>
      subst hlast
      exact ⟨hs, fun u hu => hu, by simp⟩
  | cons v roots ih =>
      rw [List.forall_mem_cons] at hroots ⊢
      rw [List.foldl_cons] at hlast
      by_cases hv : s.marks v = .unmet
      · have hvisit := visit_visited hahead hs hroots.1 hv (by simp) (Nat.lt_succ_self count)
        rw [if_pos hv] at hlast
        obtain ⟨hheld, hkept, hmet⟩ := ih hroots.2 hvisit.held hlast
        refine ⟨hheld, fun u hu => hkept u ?_, hkept v hvisit.met, hmet⟩
        rwa [hvisit.keeps u hu]
      · rw [if_neg hv] at hlast
        obtain ⟨hheld, hkept, hmet⟩ := ih hroots.2 hs hlast
        exact ⟨hheld, hkept, hkept v hv, hmet⟩

end Visits

/-- Every node is in one component, and the components are those of the edges. -/
theorem run_components (hahead : ∀ v < count, ∀ u ∈ ahead v, u < count) :
    (run ahead count).components.flatten.Perm (List.range count) ∧
      ∀ nodes ∈ (run ahead count).components, IsComponent ahead nodes := by
  obtain ⟨hheld, _, hmet⟩ := foldl_visit_held hahead (fun v hv => List.mem_range.mp hv)
    Held.start (rfl : _ = run ahead count)
  have hstack : (run ahead count).stack = [] := by
    apply List.eq_nil_iff_forall_not_mem.mpr
    intro v hv
    obtain ⟨u, hu, _⟩ := hheld.back v hv
    cases hu
  refine ⟨?_, hheld.components⟩
  rw [List.perm_ext_iff_of_nodup hheld.nodup List.nodup_range]
  intro v
  rw [← hheld.settled_iff, List.mem_range]
  constructor
  · intro hsettled
    exact hheld.met_lt v (by simp [hsettled])
  · intro hv
    cases hmark : (run ahead count).marks v with
    | unmet => exact absurd hmark (hmet v (List.mem_range.mpr hv))
    | waiting number =>
        have hmem := (hheld.waiting_iff v).mp ⟨number, hmark⟩
        simp [hstack] at hmem
    | settled => rfl

end ComponentSearch

end DerivationBelief

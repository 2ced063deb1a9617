import DerivationBelief.PhonyDecomposition
import DerivationBelief.Proofs.FactorWeights
import Mathlib.Tactic

/-!
# Splitting keeps the value of a body

Every phony node is a fresh place with the clause of its own body, which has only nodes of the split
body and earlier phony nodes in it.  When all phony nodes have the values of their bodies, the
connective has the same value on the split body as on the whole one.
-/

namespace DerivationBelief

/-! ## Values of concatenated bodies -/

def Connective.combine (connective : Connective) (first second : Bool) : Bool :=
  match connective with
  | .any => first || second
  | .all => first && second

theorem Connective.value_cons (connective : Connective) (bit : Nat) (bits : List Nat) :
    connective.value (bit :: bits) =
      connective.combine (decide (bit = 1)) (connective.value bits) := by
  cases connective <;> rfl

theorem Connective.value_append (connective : Connective) (bits others : List Nat) :
    connective.value (bits ++ others) =
      connective.combine (connective.value bits) (connective.value others) := by
  cases connective <;> simp [value, combine]

/-! ## Phony nodes -/

structure PhonyNode where
  place : Nat
  connective : Connective
  body : List Slot

namespace PhonyNode

def factor {α : Type} [Scalar α] (p : PhonyNode) : Factor Slot α :=
  .clause p.connective (.own p.place) none p.body

def value (p : PhonyNode) (a : Slot → Nat) : Bool :=
  p.connective.value (p.body.map a)

/-- A phony node has the value of its body. -/
def Right (p : PhonyNode) (a : Slot → Nat) : Prop :=
  decide (a (.own p.place) = 1) = p.value a

end PhonyNode

namespace Splitting

/-- A place that a splitting may use: one of the body, or a phony one from a range. -/
def Usable (body : List Slot) (first last : Nat) (slot : Slot) : Prop :=
  slot ∈ body ∨ ∃ place, slot = .own place ∧ first ≤ place ∧ place < last

/-- Different variables of the replica itself, all in front of a place. -/
structure OwnBelow (next : Nat) (body : List Slot) : Prop where
  nodup : body.Nodup
  below : ∀ slot ∈ body, ∃ place, slot = .own place ∧ place < next

variable {α : Type} [Scalar α]

/-- A splitting has the clauses of some fresh phony nodes, and keeps the value of the body. -/
structure Sound (connective : Connective) (next : Nat) (body : List Slot) (s : Splitting α)
    (nodes : List PhonyNode) : Prop where
  factors_eq : s.factors = nodes.map PhonyNode.factor
  places : nodes.map PhonyNode.place = List.range' next nodes.length
  next_eq : s.next = next + nodes.length
  same_connective : ∀ p ∈ nodes, p.connective = connective
  node_body : ∀ p ∈ nodes, ∀ slot ∈ p.body, Usable body next p.place slot
  body_usable : ∀ slot ∈ s.body, Usable body next s.next slot
  distinct : OwnBelow next body →
    (∀ p ∈ nodes, OwnBelow p.place p.body) ∧ OwnBelow s.next s.body
  value_eq : ∀ a, (∀ p ∈ nodes, p.Right a) →
    connective.value (s.body.map a) = connective.value (body.map a)

variable {connective : Connective} {next : Nat} {body : List Slot}

theorem Usable.mono {other : List Slot} {first last low high : Nat} {slot : Slot}
    (husable : Usable body first last slot) (hbody : ∀ s ∈ body, Usable other low high s)
    (hlow : low ≤ first) (hhigh : last ≤ high) : Usable other low high slot := by
  rcases husable with hmem | ⟨place, rfl, hfirst, hlast⟩
  · exact hbody slot hmem
  · exact Or.inr ⟨place, rfl, hlow.trans hfirst, hlast.trans_le hhigh⟩

theorem OwnBelow.sublist {slots : List Slot} {low high : Nat} (hbody : OwnBelow low body)
    (hslots : slots.Sublist body) (hle : low ≤ high) : OwnBelow high slots where
  nodup := hbody.nodup.sublist hslots
  below := by
    intro slot hslot
    obtain ⟨place, hplace, hlt⟩ := hbody.below slot (hslots.subset hslot)
    exact ⟨place, hplace, hlt.trans_le hle⟩

theorem sound_refl (connective : Connective) (next : Nat) (body : List Slot) :
    Sound (α := α) connective next body ⟨body, [], next⟩ [] where
  factors_eq := rfl
  places := rfl
  next_eq := rfl
  same_connective := by simp
  node_body := by simp
  body_usable := fun _ hslot => Or.inl hslot
  distinct := fun hbody => ⟨by simp, hbody⟩
  value_eq := fun _ _ => rfl

/-- A fresh place in front of the split rest of a body. -/
theorem Sound.distinct_cons {rest : Splitting α} {nodes : List PhonyNode}
    (hbody : OwnBelow next body) (width : Nat)
    (hrest : Sound connective (next + 1) (body.drop width) rest nodes) :
    (∀ p ∈ nodes, OwnBelow p.place p.body) ∧
      OwnBelow rest.next (Slot.own next :: rest.body) := by
  obtain ⟨hnodes, hkept⟩ :=
    hrest.distinct (hbody.sublist (List.drop_sublist width body) (Nat.le_succ next))
  have hfresh : Slot.own next ∉ rest.body := by
    intro hmem
    rcases hrest.body_usable _ hmem with hold | ⟨place, hplace, hle, _⟩
    · obtain ⟨place, hplace, hlt⟩ := hbody.below _ (List.mem_of_mem_drop hold)
      cases hplace
      exact lt_irrefl _ hlt
    · cases hplace
      omega
  refine ⟨hnodes, List.nodup_cons.mpr ⟨hfresh, hkept.nodup⟩, ?_⟩
  rw [List.forall_mem_cons]
  refine ⟨⟨next, rfl, ?_⟩, hkept.below⟩
  rw [hrest.next_eq]
  omega

theorem group_sound (connective : Connective) (width fuel next : Nat) (body : List Slot) :
    ∃ nodes, Sound (α := α) connective next body (group connective width fuel next body)
      nodes := by
  induction fuel generalizing next body with
  | zero => exact ⟨[], sound_refl connective next body⟩
  | succ fuel ih =>
      rw [group]
      split
      · exact ⟨[], sound_refl connective next body⟩
      · obtain ⟨nodes, hrest⟩ := ih (next + 1) (body.drop width)
        dsimp only
        refine ⟨⟨next, connective, body.take width⟩ :: nodes, ?_, ?_, ?_, ?_, ?_, ?_, ?_, ?_⟩
        · rw [List.map_cons, hrest.factors_eq]
          rfl
        · rw [List.map_cons, hrest.places, List.length_cons, List.range'_succ]
        · rw [hrest.next_eq, List.length_cons]
          omega
        · rw [List.forall_mem_cons]
          exact ⟨rfl, hrest.same_connective⟩
        · rw [List.forall_mem_cons]
          refine ⟨fun slot hslot => Or.inl (List.mem_of_mem_take hslot), ?_⟩
          intro p hp slot hslot
          exact (hrest.node_body p hp slot hslot).mono
            (fun s hs => Or.inl (List.mem_of_mem_drop hs)) (Nat.le_succ next) (le_refl _)
        · rw [List.forall_mem_cons]
          refine ⟨Or.inr ⟨next, rfl, le_refl _, ?_⟩, ?_⟩
          · rw [hrest.next_eq]
            omega
          · intro slot hslot
            exact (hrest.body_usable slot hslot).mono
              (fun s hs => Or.inl (List.mem_of_mem_drop hs)) (Nat.le_succ next) (le_refl _)
        · intro hbody
          obtain ⟨hnodes, hkept⟩ := hrest.distinct_cons hbody width
          rw [List.forall_mem_cons]
          exact ⟨⟨hbody.sublist (List.take_sublist width body) (le_refl _), hnodes⟩, hkept⟩
        · intro a hright
          rw [List.forall_mem_cons] at hright
          calc
            connective.value ((Slot.own next ::
                (group (α := α) connective width fuel (next + 1) (body.drop width)).body).map a)
                = connective.combine (decide (a (.own next) = 1)) (connective.value
                    ((group (α := α) connective width fuel (next + 1)
                      (body.drop width)).body.map a)) := by
                  rw [List.map_cons, Connective.value_cons]
            _ = connective.combine (connective.value ((body.take width).map a))
                  (connective.value ((body.drop width).map a)) := by
                  rw [hright.1, hrest.value_eq a hright.2]
                  rfl
            _ = connective.value (body.map a) := by
                  rw [← Connective.value_append, ← List.map_append, List.take_append_drop]

theorem Sound.le_place {s : Splitting α} {nodes : List PhonyNode}
    (hsound : Sound connective next body s nodes) {p : PhonyNode} (hp : p ∈ nodes) :
    next ≤ p.place := by
  have hmem := List.mem_map_of_mem hp (f := PhonyNode.place)
  rw [hsound.places] at hmem
  exact (List.mem_range'_1.mp hmem).1

theorem Sound.trans {first second : Splitting α} {nodes others : List PhonyNode}
    (hfirst : Sound connective next body first nodes)
    (hsecond : Sound connective first.next first.body second others) :
    Sound connective next body { second with factors := first.factors ++ second.factors }
      (nodes ++ others) where
  factors_eq := by
    rw [List.map_append, hfirst.factors_eq, hsecond.factors_eq]
  places := by
    rw [List.map_append, hfirst.places, hsecond.places, hfirst.next_eq, List.length_append,
      List.range'_append_1]
  next_eq := by
    rw [hsecond.next_eq, hfirst.next_eq, List.length_append, Nat.add_assoc]
  same_connective := by
    rw [List.forall_mem_append]
    exact ⟨hfirst.same_connective, hsecond.same_connective⟩
  node_body := by
    intro p hp slot hslot
    rcases List.mem_append.mp hp with hold | hnew
    · exact hfirst.node_body p hold slot hslot
    · have hplace := hsecond.le_place hnew
      have hnext := hfirst.next_eq
      exact (hsecond.node_body p hnew slot hslot).mono
        (fun s hs => (hfirst.body_usable s hs).mono (fun _ hb => Or.inl hb) (le_refl _) hplace)
        (by omega) (le_refl _)
  body_usable := by
    intro slot hslot
    have hnext := hfirst.next_eq
    have hlast : first.next ≤ second.next := by
      rw [hsecond.next_eq]
      omega
    exact (hsecond.body_usable slot hslot).mono
      (fun s hs => (hfirst.body_usable s hs).mono (fun _ hb => Or.inl hb) (le_refl _) hlast)
      (by omega) (le_refl _)
  distinct := by
    intro hbody
    obtain ⟨hnodes, hpass⟩ := hfirst.distinct hbody
    obtain ⟨hothers, hkept⟩ := hsecond.distinct hpass
    rw [List.forall_mem_append]
    exact ⟨⟨hnodes, hothers⟩, hkept⟩
  value_eq := by
    intro a hright
    rw [List.forall_mem_append] at hright
    exact (hsecond.value_eq a hright.2).trans (hfirst.value_eq a hright.1)

theorem split_sound (connective : Connective) (width limit fuel next : Nat) (body : List Slot) :
    ∃ nodes, Sound (α := α) connective next body (split connective width limit fuel next body)
      nodes := by
  induction fuel generalizing next body with
  | zero => exact ⟨[], sound_refl connective next body⟩
  | succ fuel ih =>
      rw [split]
      split
      · exact ⟨[], sound_refl connective next body⟩
      · obtain ⟨nodes, hpass⟩ := group_sound (α := α) connective width body.length next body
        obtain ⟨others, hrest⟩ := ih (group (α := α) connective width body.length next body).next
          (group (α := α) connective width body.length next body).body
        exact ⟨nodes ++ others, hpass.trans hrest⟩

/-- However a body is split, it keeps its value. -/
theorem ofBody_sound (connective : Connective) (width limit next : Nat) (body : List Slot) :
    ∃ nodes, Sound (α := α) connective next body (ofBody connective width limit next body)
      nodes :=
  split_sound connective width limit body.length next body

end Splitting

end DerivationBelief

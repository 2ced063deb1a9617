import DerivationBelief.Factor

/-!
# Splitting wide bodies

A factor over a wide body would be too large, so a body is split into groups of a fixed width.  A
full group gets a phony node that stands for its connective; the nodes that are left over stay.
The body of phony nodes and left-over nodes is split again until it is narrow enough.
-/

namespace DerivationBelief

/-- A variable of the template of one replica: a parameter, which all replicas share, or a variable
of the replica itself, numbered from its start. -/
inductive Slot where
  | parameter (dist : Nat)
  | own (place : Nat)
deriving DecidableEq, Repr

def Slot.resolve (offset : Nat) : Slot → Nat
  | .parameter dist => dist
  | .own place => offset + place

structure Splitting (α : Type) where
  body : List Slot
  factors : List (Factor Slot α)
  next : Nat

namespace Splitting

variable {α : Type} [Scalar α]

def group (connective : Connective) (width : Nat) : Nat → Nat → List Slot → Splitting α
  | 0, next, body => ⟨body, [], next⟩
  | fuel + 1, next, body =>
      if body.length < width then ⟨body, [], next⟩
      else
        let phony := Slot.own next
        let rest := group connective width fuel (next + 1) (body.drop width)
        ⟨phony :: rest.body, .clause connective phony none (body.take width) :: rest.factors,
          rest.next⟩

def split (connective : Connective) (width limit : Nat) : Nat → Nat → List Slot → Splitting α
  | 0, next, body => ⟨body, [], next⟩
  | fuel + 1, next, body =>
      if body.length ≤ limit then ⟨body, [], next⟩
      else
        let pass := group connective width body.length next body
        let rest := split connective width limit fuel pass.next pass.body
        { rest with factors := pass.factors ++ rest.factors }

/-- Split a body.  Every pass over a body that is too wide makes it shorter, so its length bounds
the number of passes. -/
def ofBody (connective : Connective) (width limit next : Nat) (body : List Slot) : Splitting α :=
  split connective width limit body.length next body

end Splitting

end DerivationBelief

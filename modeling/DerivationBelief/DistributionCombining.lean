import DerivationBelief.Distribution

/-!
# Combining distributions

Two independent probabilities combine to the probability of a conjunction or of a disjunction.  The
combined values are collected in slots of equal width, and the mean of a slot stands for all values
that fell into it.  So the number of values stays bounded and the mean is kept.
-/

namespace DerivationBelief.Distribution

variable {α : Type} [Scalar α]

def slotCount : Nat := 64

def slotWidth : α :=
  1 / Scalar.ofCount slotCount

/-- The slot of a value: slot zero holds nothing above zero, slot `k` the values above `k - 1` and
up to `k` widths. -/
def slotOf (value : α) : Nat :=
  min (Scalar.ceiling (value / slotWidth)) slotCount

structure Share (α : Type) where
  value : α
  weight : α

def shares (combined : α → α → α) (left right : Distribution α) : List (Share α) :=
  left.entries.flatMap (fun p =>
    right.entries.map (fun q => ⟨Scalar.clampUnit (combined p.1 q.1), p.2 * q.2⟩))

/-- The mean of the values in a slot with their total weight, if they have any. -/
def slotMean? (all : List (Share α)) (slot : Nat) : Option (α × α) :=
  let members := all.filter (fun share => slotOf share.value = slot)
  let mass := members.foldl (fun acc share => acc + share.value * share.weight) 0
  let weight := members.foldl (fun acc share => acc + share.weight) 0
  if weight == 0 then none else some (Scalar.clampUnit (mass / weight), weight)

def combineBoth (combined : α → α → α) (left right : Distribution α) : Option (Distribution α) :=
  let all := shares combined left right
  let slots := (List.range (slotCount + 1)).filterMap (slotMean? all)
  let total := Scalar.sum (slots.map Prod.snd)
  if Scalar.isPositive total then
    some ⟨slots.map Prod.fst, slots.map (fun entry => entry.2 / total)⟩
  else none

/-- A missing side leaves the other one. -/
def combine (combined : α → α → α) (left right : Option (Distribution α)) :
    Option (Distribution α) :=
  match left, right with
  | some l, some r => combineBoth combined l r
  | none, other => other
  | other, none => other

def conjoin (left right : Option (Distribution α)) : Option (Distribution α) :=
  combine (fun p q => p * q) left right

def disjoin (left right : Option (Distribution α)) : Option (Distribution α) :=
  combine (fun p q => 1 - (1 - p) * (1 - q)) left right

end DerivationBelief.Distribution

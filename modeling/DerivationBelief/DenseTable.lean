import DerivationBelief.ArrivalOrder
import DerivationBelief.Factor
import DerivationBelief.Faults

/-!
# Dense tables

A dense table lists the weights of all joint states of its variables, the first variable being the
least significant digit of the number of a state.  Tables are restricted to a state of a variable,
summed over a variable, and multiplied.

A product runs through the joint states of all variables like an odometer.  With every step of a
wheel the place in each operand moves by the stride of that variable there, and when a wheel is
through its states the places move back by what the wheel has added.
-/

namespace DerivationBelief

structure DenseTable (α : Type) where
  vars : List Nat
  cards : List Nat
  values : Array α

/-- The number of joint states if it is within the limit.  A count that has been cut to the largest
value of a 64-bit field is beyond every limit. -/
def checkedSize (cards : List Nat) (limit : Nat) : Except SolverFault Nat :=
  let size := jointStates cards
  if limit < size ∨ Text.word64 ≤ size + 1 then .error (.tableTooLarge size limit) else .ok size

structure Wheel where
  card : Nat
  strides : List Nat
deriving DecidableEq, Repr

namespace Wheel

/-- Turn the first wheel by one state; a wheel that is through turns the next one. -/
def turn : List Wheel → List Nat → List Nat → List Nat × List Nat
  | wheel :: wheels, digit :: digits, places =>
      let moved := places.zipWith (· + ·) wheel.strides
      if digit + 1 < wheel.card then ((digit + 1) :: digits, moved)
      else
        let back := moved.zipWith (fun place stride => place - stride * wheel.card) wheel.strides
        let (digits, places) := turn wheels digits back
        (0 :: digits, places)
  | _, digits, places => (digits, places)

end Wheel

namespace DenseTable

variable {α : Type} [Scalar α]

def fill (size : Nat) (values : Array α) : List (Nat × α) → Except Nat (Array α)
  | [] => .ok values
  | (state, weight) :: entries =>
      if state < size then fill size (values.setIfInBounds state weight) entries
      else .error state

/-- The table of a factor.  A state beyond the table is the fault of the file with the label. -/
def ofFactor (limit : Nat) (label : String) (number : Nat) (f : Factor Nat α) :
    Except SolverFault (DenseTable α) := do
  let size ← checkedSize f.cards limit
  match fill size (Array.replicate size 0) f.entries with
  | .ok values => return ⟨f.vars, f.cards, values⟩
  | .error state =>
      .error (.malformed label 0 s!"factor {number}: state {state} exceeds table size {size}")

variable (t : DenseTable α)

def mentions (var : Nat) : Bool :=
  t.vars.contains var

def value (place : Nat) : α :=
  t.values.getD place 0

def total : α :=
  t.values.foldl (· + ·) Scalar.emptySum

def restrict (var state : Nat) : DenseTable α :=
  match Arrival.position? t.vars var with
  | none => t
  | some position =>
      let stride := (t.cards.take position).foldl (· * ·) 1
      let card := t.cards.getD position 1
      let size := t.values.size / card
      { vars := t.vars.eraseIdx position
        cards := t.cards.eraseIdx position
        values := Array.ofFn (n := size) (fun index =>
          t.value (index.val % stride + stride * (state + card * (index.val / stride)))) }

def addValues (other : DenseTable α) : DenseTable α :=
  { t with values := Array.zipWith (· + ·) t.values other.values }

def sumOut (var : Nat) : DenseTable α :=
  match Arrival.position? t.vars var with
  | none => t
  | some position =>
      let card := t.cards.getD position 1
      ((List.range (card - 1)).map (· + 1)).foldl
        (fun sum state => sum.addValues (t.restrict var state)) (t.restrict var 0)

def strides : List Nat → Nat → List Nat
  | [], _ => []
  | card :: cards, stride => stride :: strides cards (stride * card)

/-- The stride of a variable, zero for a variable that the table does not have. -/
def strideOf (var : Nat) : Nat :=
  match Arrival.position? t.vars var with
  | none => 0
  | some position => (strides t.cards 1).getD position 0

def unionScope (tables : List (DenseTable α)) : List (Nat × Nat) :=
  (tables.flatMap (fun t => t.vars.zip t.cards)).foldl
    (fun scope entry => if Arrival.hasKey scope entry.1 then scope else scope ++ [entry]) []

def wheels (tables : List (DenseTable α)) (scope : List (Nat × Nat)) : List Wheel :=
  scope.map (fun entry => ⟨entry.2, tables.map (fun t => t.strideOf entry.1)⟩)

structure Multiplying (α : Type) where
  values : Array α
  digits : List Nat
  places : List Nat

def valueAt (tables : List (DenseTable α)) (places : List Nat) : α :=
  Scalar.product (tables.zipWith value places)

def multiplyNext (tables : List (DenseTable α)) (wheels : List Wheel) (m : Multiplying α) :
    Multiplying α :=
  let (digits, places) := Wheel.turn wheels m.digits m.places
  ⟨m.values.push (valueAt tables m.places), digits, places⟩

def product (tables : List (DenseTable α)) (limit : Nat) : Except SolverFault (DenseTable α) := do
  let scope := unionScope tables
  let size ← checkedSize (scope.map Prod.snd) limit
  let wheels := wheels tables scope
  let start : Multiplying α := ⟨#[], scope.map (fun _ => 0), tables.map (fun _ => 0)⟩
  let finished := Nat.repeat (multiplyNext tables wheels) size start
  return ⟨scope.map Prod.fst, scope.map Prod.snd, finished.values⟩

end DenseTable

end DerivationBelief

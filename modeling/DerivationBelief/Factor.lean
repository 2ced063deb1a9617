import DerivationBelief.Scalar
import DerivationBelief.UnsignedNumeral

/-!
# Sparse factors

A factor gives a weight to each joint state of its variables.  Joint states are numbered with the
first variable as the least significant digit, and states that are not listed have weight zero.
The encodings below are those of the parts of a causal graph.
-/

namespace DerivationBelief

structure Factor (ν α : Type) where
  vars : List ν
  cards : List Nat
  entries : List (Nat × α)
deriving DecidableEq, Repr

/-- The number of joint states, at most the largest value of a 64-bit field. -/
def jointStates (cards : List Nat) : Nat :=
  (cards.foldl
    (fun count card => count.bind (fun n =>
      if n * card < Text.word64 then some (n * card) else none))
    (some 1)).getD (Text.word64 - 1)

inductive Connective where
  | any
  | all
deriving DecidableEq, Repr

def Connective.holds (connective : Connective) (width state : Nat) : Bool :=
  match connective with
  | .any => state ≠ 0
  | .all => state = Nat.pow 2 width - 1

namespace Factor

variable {ν μ α : Type}

def stateCount (f : Factor ν α) : Nat :=
  jointStates f.cards

def mapVars (rename : ν → μ) (f : Factor ν α) : Factor μ α :=
  ⟨f.vars.map rename, f.cards, f.entries⟩

variable [Scalar α]

def categorical (var : ν) (weights : List α) : Factor ν α :=
  ⟨[var], [weights.length], weights.zipIdx.map (fun entry => (entry.2, entry.1))⟩

/-- The entries of one state of the parameter of a binary variable; zero weights are left out. -/
def bernoulliEntries (state : Nat) (support : α) : List (Nat × α) :=
  (if Scalar.isPositive (1 - support) then [(2 * state, 1 - support)] else []) ++
    (if Scalar.isPositive support then [(2 * state + 1, support)] else [])

def bernoulli (var param : ν) (supports : List α) : Factor ν α :=
  ⟨[var, param], [2, supports.length],
    supports.zipIdx.flatMap (fun entry => bernoulliEntries entry.2 entry.1)⟩

def constantTrue (var : ν) : Factor ν α :=
  ⟨[var], [2], [(1, 1)]⟩

/-- The entries for one joint state of the body.  A control that is false makes the head false; one
that is true lets the value through. -/
def clauseEntries (gated value : Bool) (state : Nat) : List (Nat × α) :=
  let bit := value.toNat
  if gated then [(4 * state, 1), (4 * state + 2 + bit, 1)] else [(2 * state + bit, 1)]

def clause (connective : Connective) (head : ν) (control : Option ν) (body : List ν) :
    Factor ν α :=
  let vars := head :: (control.toList ++ body)
  ⟨vars, vars.map (fun _ => 2),
    (List.range (Nat.pow 2 body.length)).flatMap (fun state =>
      clauseEntries control.isSome (connective.holds body.length state) state)⟩

end Factor

end DerivationBelief

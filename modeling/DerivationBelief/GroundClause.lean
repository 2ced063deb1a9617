import DerivationBelief.GroundTuple

/-!
# Ground clauses

A ground clause is one instance of a rule: it derives its head when all literals of its body hold.
Head and body literals carry a sign.
-/

namespace DerivationBelief

structure Literal where
  tuple : GroundTuple
  positive : Bool
deriving DecidableEq, Repr

structure GroundClause where
  rule : UInt32
  head : GroundTuple
  headPositive : Bool
  body : List Literal
deriving DecidableEq, Repr

namespace GroundClause

def positive (rule : UInt32) (head : GroundTuple) (body : List GroundTuple) : GroundClause :=
  ⟨rule, head, true, body.map (fun t => ⟨t, true⟩)⟩

/-- A clause from parallel lists of body tuples and signs.  A missing tuple is dropped with its
sign. -/
def ofParts (rule : UInt32) (head : GroundTuple) (headPositive : Bool)
    (subs : List (Option GroundTuple)) (signs : List Bool) :
    Except ProvenanceFault GroundClause :=
  if subs.length ≠ signs.length then .error (.signCount subs.length signs.length)
  else
    .ok ⟨rule, head, headPositive,
      (subs.zip signs).filterMap (fun entry => entry.1.map (fun t => ⟨t, entry.2⟩))⟩

def bodyTuples (c : GroundClause) : List GroundTuple :=
  c.body.map Literal.tuple

def signText (positive : Bool) : String :=
  if positive then "" else "!"

/-- The written form, such as `!O(0):=I(1)*!I(2)`. -/
def text (c : GroundClause) : String :=
  signText c.headPositive ++ c.head.text ++ ":=" ++
    "*".intercalate (c.body.map (fun l => signText l.positive ++ l.tuple.text))

end GroundClause

end DerivationBelief

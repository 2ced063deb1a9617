import DerivationBelief.GroundClause
import DerivationBelief.JsonWriting

/-!
# Fact feeds

What a rule engine hands over: the ground clauses it found, the tuples it started from, the tuples
it reported, and a description of each rule.  A feed is read from JSON; its four parts may be
missing, every field of a tuple, a literal or a clause is required.  It is written back with all
of its parts.
-/

namespace DerivationBelief

structure FactFeed where
  clauses : List GroundClause
  inputs : List GroundTuple
  outputs : List GroundTuple
  rules : List String
deriving DecidableEq, Repr

namespace FactFeed

def readList? {β : Type} (read? : Json → Option β) (value : Json) : Option (List β) := do
  (← value.asArray?).mapM read?

def readWord32? (value : Json) : Option UInt32 :=
  (value.asBelow? Text.word32).map UInt32.ofNat

def readTuple? (value : Json) : Option GroundTuple := do
  match ← value.fields? ["relation", "attributes"] with
  | [some relation, some attributes] =>
      return ⟨← relation.asString?, ← readList? readWord32? attributes⟩
  | _ => none

def readLiteral? (value : Json) : Option Literal := do
  match ← value.fields? ["tuple", "positive"] with
  | [some tuple, some positive] => return ⟨← readTuple? tuple, ← positive.asBool?⟩
  | _ => none

def readClause? (value : Json) : Option GroundClause := do
  match ← value.fields? ["rule_id", "head", "head_sign", "body"] with
  | [some rule, some head, some sign, some body] =>
      return ⟨← readWord32? rule, ← readTuple? head, ← sign.asBool?, ← readList? readLiteral? body⟩
  | _ => none

/-- A part that is missing is empty. -/
def readPart? {β : Type} (read? : Json → Option β) : Option Json → Option (List β)
  | none => some []
  | some value => readList? read? value

def ofJson? (value : Json) : Option FactFeed := do
  match ← value.fields? ["constraints", "inputs", "outputs", "rules"] with
  | [clauses, inputs, outputs, rules] =>
      return {
        clauses := ← readPart? readClause? clauses
        inputs := ← readPart? readTuple? inputs
        outputs := ← readPart? readTuple? outputs
        rules := ← readPart? Json.asString? rules }
  | _ => none

def ofText? (text : String) : Option FactFeed := do
  ofJson? (← Json.ofText? text)

def tupleJson (t : GroundTuple) : Json :=
  .object [("relation", .string t.relation),
    ("attributes", .ofList (fun value => .ofNat value.toNat) t.attributes)]

def literalJson (l : Literal) : Json :=
  .object [("tuple", tupleJson l.tuple), ("positive", .bool l.positive)]

def clauseJson (c : GroundClause) : Json :=
  .object [("rule_id", .ofNat c.rule.toNat), ("head", tupleJson c.head),
    ("head_sign", .bool c.headPositive), ("body", .ofList literalJson c.body)]

def toJson (feed : FactFeed) : Json :=
  .object [("constraints", .ofList clauseJson feed.clauses),
    ("inputs", .ofList tupleJson feed.inputs), ("outputs", .ofList tupleJson feed.outputs),
    ("rules", .ofList .string feed.rules)]

end FactFeed

end DerivationBelief

import DerivationBelief.BlankText
import DerivationBelief.Faults

/-!
# Kinds of learners

A learner turns batches of observations into beliefs.  The kinds differ in how a batch enters the
network.
-/

namespace DerivationBelief

inductive LearnerKind where
  /-- Every batch replaces the priors by their posteriors. -/
  | iterating
  /-- The whole history is bound in one replicated network. -/
  | oneShot
  /-- The parameters are fitted to the history by expectation maximisation. -/
  | fitting
  /-- The graph grows with the observations. -/
  | differentiating
deriving DecidableEq, Repr

namespace LearnerKind

def all : List LearnerKind := [.iterating, .oneShot, .fitting, .differentiating]

def name : LearnerKind → String
  | .iterating => "iterating"
  | .oneShot => "oneshot"
  | .fitting => "em"
  | .differentiating => "dynaboost"

def ofName? (text : String) : Option LearnerKind :=
  if text = "baseline" then some .differentiating
  else all.find? (fun kind => kind.name = text)

def read {α : Type} (text : String) : Except (LearnerFault α) LearnerKind :=
  let trimmed := String.ofList (Text.trim text.toList)
  match ofName? trimmed with
  | some kind => .ok kind
  | none => .error (.unknownKind trimmed)

end LearnerKind

end DerivationBelief

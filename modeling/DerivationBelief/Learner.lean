import DerivationBelief.DifferentiatingLearner
import DerivationBelief.FittingLearner
import DerivationBelief.IteratingLearner
import DerivationBelief.LearnerKind
import DerivationBelief.OneShotLearner

/-!
# Learners of any kind

A learner owns a copy of a causal graph, takes observations, and answers questions.  Appending
never compiles anything; the first question afterwards does.
-/

namespace DerivationBelief

inductive Learner (α : Type) where
  | iterating (learner : IteratingLearner α)
  | oneShot (learner : OneShotLearner α)
  | fitting (learner : FittingLearner α)
  | differentiating (learner : DifferentiatingLearner α)

namespace Learner

variable {α : Type}

def new [Scalar α] (kind : LearnerKind) (name : String) (context : LearnerContext α)
    (graph : CausalGraph α) : Except (LearnerFault α) (Learner α) :=
  match kind with
  | .iterating => .ok (.iterating (.new name context graph))
  | .oneShot => .ok (.oneShot (.new name context graph))
  | .fitting => .ok (.fitting (.new name context graph))
  | .differentiating => (DifferentiatingLearner.new name context graph).map .differentiating

def kind : Learner α → LearnerKind
  | .iterating _ => .iterating
  | .oneShot _ => .oneShot
  | .fitting _ => .fitting
  | .differentiating _ => .differentiating

def name : Learner α → String
  | .iterating l => l.name
  | .oneShot l => l.name
  | .fitting l => l.name
  | .differentiating l => l.name

def context : Learner α → LearnerContext α
  | .iterating l => l.context
  | .oneShot l => l.context
  | .fitting l => l.context
  | .differentiating l => l.context

def graph : Learner α → CausalGraph α
  | .iterating l => l.graph
  | .oneShot l => l.graph
  | .fitting l => l.graph
  | .differentiating l => l.graph

def state : Learner α → LearnerState
  | .iterating l => l.state
  | .oneShot l => l.state
  | .fitting l => l.state
  | .differentiating l => l.state

def lift {L β : Type} (wrap : L → Learner α)
    (outcome : Outcome (LearnerFault α) β (L × Workspace)) :
    Outcome (LearnerFault α) β (Learner α × Workspace) :=
  (outcome.1, wrap outcome.2.1, outcome.2.2)

variable [Scalar α] [Numeral α] (l : Learner α)

def append (w : Workspace) (observation : Observation) : Learner α × Workspace :=
  match l with
  | .iterating l => let (l, w) := l.append w observation; (.iterating l, w)
  | .oneShot l => (.oneShot (l.append observation), w)
  | .fitting l => (.fitting (l.append observation), w)
  | .differentiating l => let (l, w) := l.append w observation; (.differentiating l, w)

def appendAll (w : Workspace) (observations : List Observation) : Learner α × Workspace :=
  observations.foldl (fun state observation => state.1.append state.2 observation) (l, w)

def query (w : Workspace) (node : String) : Outcome (LearnerFault α) α (Learner α × Workspace) :=
  match l with
  | .iterating l => lift .iterating (l.query w node)
  | .oneShot l => lift .oneShot (l.query w node)
  | .fitting l => lift .fitting (l.query w node)
  | .differentiating l => lift .differentiating (l.query w node)

def posterior (w : Workspace) (dist : Nat) :
    Outcome (LearnerFault α) (List α) (Learner α × Workspace) :=
  match l with
  | .iterating l => lift .iterating (l.posterior w dist)
  | .oneShot l => lift .oneShot (l.posterior w dist)
  | .fitting l => lift .fitting (l.posterior w dist)
  | .differentiating l => lift .differentiating (l.posterior w dist)

def queryKnown : List String → List (String × α) → Learner α → Workspace →
    Outcome (LearnerFault α) (List (String × α)) (Learner α × Workspace)
  | [], answers, l, w => (.ok answers, l, w)
  | node :: nodes, answers, l, w =>
      match l.graph.nodeId? node with
      | none => queryKnown nodes answers l w
      | some _ =>
          match l.query w node with
          | (.error fault, l, w) => (.error fault, l, w)
          | (.ok p, l, w) => queryKnown nodes (Arrival.put answers node p) l w

def possibilities (w : Workspace) (nodes : List String) :
    Outcome (LearnerFault α) (List (String × α)) (Learner α × Workspace) :=
  queryKnown nodes [] l w

end Learner

end DerivationBelief

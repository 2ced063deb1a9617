import DerivationBelief.ContradictionFilter

/-!
# Learning by fitting the parameters

The whole history, without its contradictions, goes into the estimation of the parameters.  Answers
come from the network with the fitted parameters; the priors of the graph stay as they are.
-/

namespace DerivationBelief

structure FittingLearner (α : Type) where
  name : String
  context : LearnerContext α
  graph : CausalGraph α
  /-- The batches without their contradictions. -/
  history : List Batch
  network : Option (ReplicaNetwork α)
  state : LearnerState

namespace FittingLearner

variable {α : Type}

def new (name : String) (context : LearnerContext α) (graph : CausalGraph α) : FittingLearner α :=
  { name, context, graph, history := [], network := none, state := .dirty }

variable [Scalar α] [Numeral α] (l : FittingLearner α)

def fitted (w : Workspace) : Outcome (LearnerFault α) (ReplicaNetwork α) Workspace :=
  let name := "em_" ++ threeDigits l.history.length
  match l.context.createNetwork w name l.graph 0 false with
  | (.error fault, w) => (.error fault, w)
  | (.ok network, w) =>
      if l.history.isEmpty then (.ok network, w)
      else
        match network.fit w.files l.context.directory name l.history
            (l.context.clocks l.history.length) with
        | (.error cause, _, files) => (.error (.network cause), { w with files })
        | (.ok (), network, files) => (.ok network, { w with files })

def refresh (w : Workspace) :
    Outcome (LearnerFault α) (ReplicaNetwork α) (FittingLearner α × Workspace) :=
  match l.state, l.network with
  | .clean, some network => (.ok network, l, w)
  | _, _ =>
      let w := l.context.retire w l.network "em.query"
      let l := { l with network := none }
      match l.fitted w with
      | (.error fault, w) => (.error fault, l, w)
      | (.ok network, w) => (.ok network, { l with network := some network, state := .clean }, w)

def append (observation : Observation) : FittingLearner α :=
  { l with
    history := l.history ++ [l.graph.dropContradictions (l.graph.batchOf observation)]
    state := .dirty }

def keep (l : FittingLearner α) (network : ReplicaNetwork α) : FittingLearner α :=
  { l with network := some network }

def query (w : Workspace) (node : String) :
    Outcome (LearnerFault α) α (FittingLearner α × Workspace) :=
  match l.graph.nodeId? node with
  | none => (.error (.unknownNode node), l, w)
  | some id =>
      let l := { l with context := l.context.recordQuery id node }
      ReplicaNetwork.ask (fun n => n.predict id) keep (l.refresh w)

def posterior (w : Workspace) (dist : Nat) :
    Outcome (LearnerFault α) (List α) (FittingLearner α × Workspace) :=
  ReplicaNetwork.ask (fun n => n.posterior dist) keep (l.refresh w)

end FittingLearner

end DerivationBelief

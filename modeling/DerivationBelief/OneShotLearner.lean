import DerivationBelief.LearnerContext

/-!
# Learning from the whole history at once

The history is bound in one network: batch `t` in replica `t`, while questions are about replica
zero.  The priors of the graph stay as they are.
-/

namespace DerivationBelief

structure OneShotLearner (α : Type) where
  name : String
  context : LearnerContext α
  graph : CausalGraph α
  history : List Batch
  network : Option (ReplicaNetwork α)
  state : LearnerState

namespace OneShotLearner

variable {α : Type}

def new (name : String) (context : LearnerContext α) (graph : CausalGraph α) : OneShotLearner α :=
  { name, context, graph, history := [], network := none, state := .dirty }

variable [Scalar α] [Numeral α] (l : OneShotLearner α)

/-- Bind the batches of a history to the replicas behind the first one. -/
def bindHistory (n : ReplicaNetwork α) (history : List Batch) :
    Except (LearnerFault α) (ReplicaNetwork α) :=
  history.zipIdx.foldlM (fun network entry => network.bindBatch entry.1 (entry.2 + 1)) n

def refresh (w : Workspace) :
    Outcome (LearnerFault α) (ReplicaNetwork α) (OneShotLearner α × Workspace) :=
  match l.state, l.network with
  | .clean, some network => (.ok network, l, w)
  | _, _ =>
      let l := { l with network := none }
      let name := l.name ++ s!"_{l.history.length}"
      match l.context.createNetwork w name l.graph l.history.length true with
      | (.error fault, w) => (.error fault, l, w)
      | (.ok network, w) =>
          match bindHistory network l.history with
          | .error fault => (.error fault, l, w)
          | .ok network => (.ok network, { l with network := some network, state := .clean }, w)

def append (observation : Observation) : OneShotLearner α :=
  { l with
    history := l.history ++ [l.graph.batchOf observation]
    network := none
    state := .dirty }

def keep (l : OneShotLearner α) (network : ReplicaNetwork α) : OneShotLearner α :=
  { l with network := some network }

def query (w : Workspace) (node : String) :
    Outcome (LearnerFault α) α (OneShotLearner α × Workspace) :=
  match l.graph.nodeId? node with
  | none => (.error (.unknownNode node), l, w)
  | some id =>
      let l := { l with context := l.context.recordQuery id node }
      ReplicaNetwork.ask (fun n => n.predict id) keep (l.refresh w)

def posterior (w : Workspace) (dist : Nat) :
    Outcome (LearnerFault α) (List α) (OneShotLearner α × Workspace) :=
  ReplicaNetwork.ask (fun n => n.posterior dist) keep (l.refresh w)

end OneShotLearner

end DerivationBelief

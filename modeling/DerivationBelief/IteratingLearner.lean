import DerivationBelief.LearnerContext

/-!
# Learning batch by batch

Every batch is bound in a network of its own, and the posteriors of all parameters replace the
priors of the graph before the next batch.  Update `k` ranks the nodes that were asked for under its
evidence; a network that is replaced leaves a record of its answers.
-/

namespace DerivationBelief

structure IteratingLearner (α : Type) where
  name : String
  context : LearnerContext α
  graph : CausalGraph α
  pending : List Batch
  network : Option (ReplicaNetwork α)
  updates : Nat
  state : LearnerState

namespace IteratingLearner

variable {α : Type}

def new (name : String) (context : LearnerContext α) (graph : CausalGraph α) :
    IteratingLearner α :=
  { name, context, graph, pending := [], network := none, updates := 0, state := .dirty }

variable [Scalar α] [Numeral α]

def predictAll (n : ReplicaNetwork α) :
    List (Nat × String) → Except (LearnerFault α) (List (Nat × α × String) × ReplicaNetwork α)
  | [] => .ok ([], n)
  | (node, name) :: rest =>
      match n.predict node with
      | (.error cause, _) => .error (.network cause)
      | (.ok p, n) => do
          let (ranking, n) ← predictAll n rest
          return ((node, p, name) :: ranking, n)

def rankingText (ranking : List (Nat × α × String)) : String :=
  String.join (ranking.map (fun entry =>
    s!"{entry.1}\t" ++ Numeral.text entry.2.1 ++ "\t" ++ entry.2.2 ++ "\n"))

def writeRanking (c : LearnerContext α) (n : ReplicaNetwork α) (w : Workspace) (name : String) :
    Except (LearnerFault α) (ReplicaNetwork α × Workspace) := do
  let (ranking, n) ← predictAll n c.queried
  let sorted := sortBy (fun a b => Scalar.sortsBefore b.2.1 a.2.1) ranking
  let files := w.files.tryWrite (joinPath c.directory name) (rankingText sorted)
  return (n, { w with files })

variable (l : IteratingLearner α)

def retire (w : Workspace) : IteratingLearner α × Workspace :=
  ({ l with network := none },
    l.context.retire w l.network (threeDigits l.updates ++ ".query"))

def infer (w : Workspace) (batch : Batch) :
    Outcome (LearnerFault α) (ReplicaNetwork α × CausalGraph α) Workspace :=
  let number := threeDigits (l.updates + 1)
  match l.context.createNetwork w (number ++ ".post") l.graph 0 true with
  | (.error fault, w) => (.error fault, w)
  | (.ok network, w) =>
      match network.bindBatch batch 0 with
      | .error fault => (.error fault, w)
      | .ok network =>
          match writeRanking l.context network w (number ++ ".local.list") with
          | .error fault => (.error fault, w)
          | .ok (network, w) =>
              match network.updateGraph l.graph with
              | (.error fault, _) => (.error fault, w)
              | (.ok graph, network) => (.ok (network, graph), w)

/-- Apply batches in order.  A batch that fails stays the first pending one. -/
def applyBatches : List Batch → IteratingLearner α → Workspace →
    Outcome (LearnerFault α) Unit (IteratingLearner α × Workspace)
  | [], l, w => (.ok (), l, w)
  | batch :: rest, l, w =>
      let (l, w) := l.retire w
      match l.infer w batch with
      | (.error fault, w) => (.error fault, l, w)
      | (.ok (network, graph), w) =>
          let l := { l with
            graph, network := some network, pending := rest, updates := l.updates + 1 }
          applyBatches rest l w

def recompile (w : Workspace) : Outcome (LearnerFault α) Unit (IteratingLearner α × Workspace) :=
  let (l, w) := l.retire w
  match l.context.createNetwork w (threeDigits l.updates ++ ".post") l.graph 0 true with
  | (.error fault, w) => (.error fault, l, w)
  | (.ok network, w) => (.ok (), { l with network := some network }, w)

def refresh (w : Workspace) :
    Outcome (LearnerFault α) (ReplicaNetwork α) (IteratingLearner α × Workspace) :=
  let updated : Outcome (LearnerFault α) Unit (IteratingLearner α × Workspace) :=
    if l.state = .clean ∧ l.network.isSome then (.ok (), l, w)
    else
      let (result, l, w) :=
        if l.pending.isEmpty then l.recompile w else applyBatches l.pending l w
      (result, (if result.toBool then { l with state := .clean } else l), w)
  match updated with
  | (.error fault, state) => (.error fault, state)
  | (.ok (), l, w) =>
      match l.network with
      | some network => (.ok network, l, w)
      | none => (.error (.network (.released l.name)), l, w)

def append (w : Workspace) (observation : Observation) : IteratingLearner α × Workspace :=
  let batch := l.graph.batchOf observation
  let (l, w) := { l with pending := l.pending ++ [batch] }.retire w
  ({ l with state := .dirty }, w)

def keep (l : IteratingLearner α) (network : ReplicaNetwork α) : IteratingLearner α :=
  { l with network := some network }

def query (w : Workspace) (node : String) :
    Outcome (LearnerFault α) α (IteratingLearner α × Workspace) :=
  match l.graph.nodeId? node with
  | none => (.error (.unknownNode node), l, w)
  | some id =>
      let l := { l with context := l.context.recordQuery id node }
      ReplicaNetwork.ask (fun n => n.predict id) keep (l.refresh w)

def posterior (w : Workspace) (dist : Nat) :
    Outcome (LearnerFault α) (List α) (IteratingLearner α × Workspace) :=
  ReplicaNetwork.ask (fun n => n.posterior dist) keep (l.refresh w)

end IteratingLearner

end DerivationBelief

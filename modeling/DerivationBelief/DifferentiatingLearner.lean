import DerivationBelief.LearnerContext

/-!
# Learning by growing the graph

Every round of observations adds a family of four nodes for each observed node to a copy of the
graph.  With the latest replica `prev` of the node, which is the node itself at first:

* a derivation, the product of `prev`, with the fixed probability of rules;
* the new latest replica, the sum of that derivation;
* an observed clause, the product of `prev`, whose prior is how often the node was observed true;
* an observation, the sum of that clause, which is bound to be true.

Products that use an observed node use its latest replica instead.
-/

namespace DerivationBelief

/-- How often a node was observed, and how often as true. -/
structure ObservationCount where
  trues : Nat
  total : Nat
deriving DecidableEq, Repr

structure ReplicaFamily (α : Type) where
  previous : Nat
  derivation : Nat
  derivationName : String
  replica : Nat
  clause : Nat
  clauseName : String
  observed : Nat
  frequency : α

structure DifferentiatingLearner (α : Type) where
  name : String
  context : LearnerContext α
  /-- The graph with the fixed probability at every product. -/
  graph : CausalGraph α
  counts : List (Nat × ObservationCount)
  /-- For each round, the observed nodes and how often they had been true by then. -/
  rounds : List (List (Nat × α))
  differentiated : Option (CausalGraph α)
  network : Option (ReplicaNetwork α)
  state : LearnerState

namespace DifferentiatingLearner

variable {α : Type} [Scalar α]

/-- Give every product the fixed probability, and drop all other priors. -/
def canonicalGraph (ruleProbability : α) (graph : CausalGraph α) :
    Except (LearnerFault α) (CausalGraph α) :=
  (graph.prods.filterMap (fun d => graph.nodes[d.1]?)).foldlM
    (fun g head => do
      let d ← (Distribution.pointMass ruleProbability).mapError .distribution
      return (g.setPrior head d).1)
    graph.forgetPriors

def new (name : String) (context : LearnerContext α) (graph : CausalGraph α) :
    Except (LearnerFault α) (DifferentiatingLearner α) := do
  let graph ← canonicalGraph context.ruleProbability graph
  return {
    name, context, graph, counts := [], rounds := [], differentiated := none, network := none
    state := .dirty }

variable (l : DifferentiatingLearner α)

def addedName (role : String) (round : Nat) (node : String) : String :=
  "_Dyna" ++ role ++ s!"{round}_" ++ node

structure Growing (α : Type) where
  graph : CausalGraph α
  latest : List (Nat × Nat)
  families : List (ReplicaFamily α)

def growFamily (round : Nat) (s : Growing α) (entry : Nat × α) :
    Except (LearnerFault α) (Growing α) :=
  match l.graph.nodes[entry.1]? with
  | none => .error (.unknownNode s!"{entry.1}")
  | some node =>
      let derivationName := addedName "D" round node
      let clauseName := addedName "OCls" round node
      let (graph, derivation) := s.graph.addNode derivationName
      let (graph, replica) := graph.addNode (addedName "T" round node)
      let (graph, clause) := graph.addNode clauseName
      let (graph, observed) := graph.addNode (addedName "O" round node)
      let family : ReplicaFamily α :=
        { previous := (Arrival.get? s.latest entry.1).getD entry.1
          derivation, derivationName, replica, clause, clauseName, observed
          frequency := entry.2 }
      .ok {
        graph
        latest := Arrival.put s.latest entry.1 replica
        families := s.families ++ [family] }

def growNodes (start : CausalGraph α) : Except (LearnerFault α) (Growing α) :=
  l.rounds.zipIdx.foldlM
    (fun s round => round.1.foldlM (l.growFamily (round.2 + 1)) s) ⟨start, [], []⟩

/-- Let a product use the latest replicas of its body. -/
def rewire (latest : List (Nat × Nat)) (g : CausalGraph α) (d : Nat × List Nat) :
    Except (LearnerFault α) (CausalGraph α) :=
  if d.2.any (Arrival.hasKey latest) then
    (g.setProd d.1 (d.2.map (fun sub => (Arrival.get? latest sub).getD sub))).mapError .graph
  else .ok g

def connect (g : CausalGraph α) (f : ReplicaFamily α) :
    Except (LearnerFault α) (CausalGraph α) := do
  let g ← (g.setProd f.derivation [f.previous]).mapError .graph
  let rule ← (Distribution.pointMass l.context.ruleProbability).mapError .distribution
  let g := (g.setPrior f.derivationName rule).1
  let g ← (g.setSum f.replica [f.derivation]).mapError .graph
  let g ← (g.setProd f.clause [f.previous]).mapError .graph
  let frequency ← (Distribution.pointMass f.frequency).mapError .distribution
  let g := (g.setPrior f.clauseName frequency).1
  (g.setSum f.observed [f.clause]).mapError .graph

/-- The graph with one family for each observed node of each round. -/
def differentiate : Except (LearnerFault α) (CausalGraph α) := do
  let start := l.graph.withName (l.graph.name ++ s!"_Dyna_{l.rounds.length}")
  let grown ← l.growNodes start
  let rewired ← l.graph.prods.foldlM (rewire grown.latest) grown.graph
  let g ← grown.families.foldlM l.connect rewired
  g.validate.mapError .graph
  return g

def observationNodes (g : CausalGraph α) : List Nat :=
  l.rounds.zipIdx.flatMap (fun round =>
    round.1.filterMap (fun entry =>
      match l.graph.nodes[entry.1]? with
      | some node => g.nodeId? (addedName "O" (round.2 + 1) node)
      | none => none))

section Learning

variable [Numeral α]

def observed (w : Workspace) (g : CausalGraph α) :
    Outcome (LearnerFault α) (ReplicaNetwork α) Workspace :=
  match l.context.createNetwork w (l.name ++ s!"_{l.rounds.length}") g 0 false with
  | (.error fault, w) => (.error fault, w)
  | (.ok network, w) =>
      (network.bindBatch ((l.observationNodes g).map (fun node => (node, true))) 0, w)

def refresh (w : Workspace) :
    Outcome (LearnerFault α) (ReplicaNetwork α) (DifferentiatingLearner α × Workspace) :=
  match l.state, l.network with
  | .clean, some network => (.ok network, l, w)
  | _, _ =>
      match LearnerContext.checkCancelled w with
      | (.error fault, w) => (.error fault, l, w)
      | (.ok (), w) =>
          match l.differentiate with
          | .error fault => (.error fault, l, w)
          | .ok g =>
              let l := { l with network := none }
              match l.observed w g with
              | (.error fault, w) => (.error fault, l, w)
              | (.ok network, w) =>
                  let l := { l with
                    differentiated := some g, network := some network, state := .clean }
                  (.ok network, l, w)

/-- Count an observed value, and give how often the node has been true, away from zero and one. -/
def countValue (counts : List (Nat × ObservationCount)) (entry : Nat × Bool) :
    List (Nat × ObservationCount) × (Nat × α) :=
  let old := (Arrival.get? counts entry.1).getD ⟨0, 0⟩
  let new : ObservationCount := ⟨old.trues + entry.2.toNat, old.total + 1⟩
  let share : α := Scalar.ofCount new.trues / Scalar.ofCount new.total
  let epsilon : α := Distribution.epsilon
  (Arrival.put counts entry.1 new, (entry.1, Scalar.clamp epsilon (1 - epsilon) share))

def countBatch (counts : List (Nat × ObservationCount)) (batch : Batch) :
    List (Nat × ObservationCount) × List (Nat × α) :=
  batch.foldl
    (fun state entry =>
      let (counts, shared) := countValue state.1 entry
      (counts, state.2 ++ [shared]))
    (counts, [])

def append (w : Workspace) (observation : Observation) : DifferentiatingLearner α × Workspace :=
  let (counts, round) := countBatch l.counts (l.graph.batchOf observation)
  let w := l.context.retire w l.network (threeDigits l.rounds.length ++ ".query")
  ({ l with counts, network := none, rounds := l.rounds ++ [round], state := .dirty }, w)

def keep (l : DifferentiatingLearner α) (network : ReplicaNetwork α) :
    DifferentiatingLearner α :=
  { l with network := some network }

def query (w : Workspace) (node : String) :
    Outcome (LearnerFault α) α (DifferentiatingLearner α × Workspace) :=
  match l.graph.nodeId? node with
  | none => (.error (.unknownNode node), l, w)
  | some id =>
      let l := { l with context := l.context.recordQuery id node }
      ReplicaNetwork.ask (fun n => n.predict id) keep (l.refresh w)

def posterior (w : Workspace) (dist : Nat) :
    Outcome (LearnerFault α) (List α) (DifferentiatingLearner α × Workspace) :=
  ReplicaNetwork.ask (fun n => n.posterior dist) keep (l.refresh w)

end Learning

end DifferentiatingLearner

end DerivationBelief

import DerivationBelief.Outcome
import DerivationBelief.ParameterFitting

/-!
# Networks of replicas

A causal graph is compiled to a file, and the file is loaded as a network.  Node `n` of replica `t`
is the variable `offset + t * shift + n`, and parameter `d` is the variable `d`.  Observations come
before the first question; from then on the network is active and accepts none.  Predictions are
about replica zero.
-/

namespace DerivationBelief

structure ReplicaNetwork (α : Type) where
  name : String
  path : String
  nodeCount : Nat
  offset : Nat
  shift : Nat
  repetitions : Nat
  backend : Option (ExactNetwork α)
  activated : Bool
  queries : List (Nat × α)

namespace ReplicaNetwork

variable {α : Type}

section Creating

variable [Scalar α] [Numeral α]

/-- Compile a graph to a file in a directory and load it.  The file stays when loading fails. -/
def create (tree : FileTree) (directory name : String) (graph : CausalGraph α)
    (repetitions : Nat) (bayesian : Bool) (clauseLimit : Nat) (options : SolverOptions α) :
    Outcome NetworkFault (ReplicaNetwork α) FileTree :=
  match FactorGraph.compile graph repetitions bayesian clauseLimit with
  | .error cause => (.error (.compile cause), tree)
  | .ok compiled =>
      let path := joinPath directory (name ++ ".fg")
      match compiled.write tree path with
      | .error cause => (.error (.compile cause), tree)
      | .ok tree =>
          match ExactNetwork.load tree path options with
          | .error cause => (.error (.solver cause), tree)
          | .ok backend =>
              (.ok {
                name, path, nodeCount := graph.nodeCount
                offset := compiled.layout.distCount
                shift := compiled.layout.shift
                repetitions, backend := some backend
                activated := false, queries := [] }, tree)

end Creating

variable (n : ReplicaNetwork α)

def isReleased : Bool :=
  n.backend.isNone

def loaded : Except NetworkFault (ExactNetwork α) :=
  match n.backend with
  | some backend => .ok backend
  | none => .error (.released n.name)

def checkNode (node : Nat) : Except NetworkFault Unit :=
  if n.nodeCount ≤ node then .error (.nodeOutOfRange node n.nodeCount) else .ok ()

def variableOf (time node : Nat) : Nat :=
  n.offset + time * n.shift + node

section Inference

variable [Scalar α]

def observe (node time : Nat) (value : Bool) : Except NetworkFault (ReplicaNetwork α) := do
  n.checkNode node
  if n.repetitions < time then .error (.timeOutOfRange time n.repetitions)
  else if n.activated then .error (.alreadyActivated n.name)
  else do
    let backend ← n.loaded
    match backend.observe (n.variableOf time node) value with
    | .ok backend => return { n with backend := some backend }
    | .error cause => .error (.solver cause)

def activate : Except NetworkFault (ReplicaNetwork α) :=
  if n.activated then .ok n
  else do
    let backend ← n.loaded
    match backend.propagate with
    | .ok () => return { n with activated := true }
    | .error cause => .error (.solver cause)

def predict (node : Nat) : Outcome NetworkFault α (ReplicaNetwork α) :=
  match n.checkNode node with
  | .error fault => (.error fault, n)
  | .ok () =>
      match n.activate with
      | .error fault => (.error fault, n)
      | .ok active =>
          match active.loaded with
          | .error fault => (.error fault, active)
          | .ok backend =>
              match backend.queryTruth (active.variableOf 0 node) with
              | (.ok p, backend) =>
                  (.ok p, { active with
                    backend := some backend
                    queries := Arrival.put active.queries node p })
              | (.error cause, backend) =>
                  (.error (.solver cause), { active with backend := some backend })

def posterior (dist : Nat) : Outcome NetworkFault (List α) (ReplicaNetwork α) :=
  if n.offset ≤ dist then (.error (.notAParameter dist n.offset), n)
  else
    match n.activate with
    | .error fault => (.error fault, n)
    | .ok active =>
        match active.loaded with
        | .error fault => (.error fault, active)
        | .ok backend =>
            match backend.queryStates dist with
            | (.ok belief, backend) => (.ok belief, { active with backend := some backend })
            | (.error cause, backend) =>
                (.error (.solver cause), { active with backend := some backend })

def historyNodes (history : List (List (Nat × Bool))) : List Nat :=
  Arrival.distinct (history.flatMap (fun row => row.map Prod.fst))

/-- The table of a history: a column for every node, the last value of a node in a row. -/
def historyTable (history : List (List (Nat × Bool))) : EvidenceTable :=
  let nodes := historyNodes history
  { vars := nodes.map (fun node => node + n.offset)
    rows := history.map (fun row => nodes.map (Arrival.get? (Arrival.putAll [] row))) }

def fit (tree : FileTree) (directory name : String) (history : List (List (Nat × Bool)))
    (clock : Clock := .steady) :
    Outcome NetworkFault Unit (ReplicaNetwork α × FileTree) :=
  let tablePath := joinPath directory (name ++ ".tab")
  let planPath := joinPath directory (name ++ ".em")
  match history.flatten.forM (fun entry => n.checkNode entry.1) with
  | .error fault => (.error fault, n, tree)
  | .ok () =>
      match (n.historyTable history).write tree tablePath with
      | .error cause => (.error (.compile cause), n, tree)
      | .ok tree =>
          match EstimatedFactor.writePlan (List.range n.offset) tree planPath with
          | .error cause => (.error (.compile cause), n, tree)
          | .ok tree =>
              match n.loaded with
              | .error fault => (.error fault, n, tree)
              | .ok backend =>
                  match backend.fit tree tablePath planPath clock with
                  | (.ok (), backend) =>
                      (.ok (), { n with backend := some backend, activated := true }, tree)
                  | (.error cause, backend) =>
                      (.error (.solver cause), { n with backend := some backend }, tree)

end Inference

def release : ReplicaNetwork α :=
  { n with backend := none, activated := false }

section Writing

variable [Numeral α]

def queryText : String :=
  String.join (n.queries.map (fun entry => s!"{entry.1}\t" ++ Numeral.text entry.2 ++ "\n"))

def writeQueries (tree : FileTree) (path : String) : FileTree :=
  tree.tryWrite path n.queryText

end Writing

end ReplicaNetwork

end DerivationBelief

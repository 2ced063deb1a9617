import DerivationBelief.GraphListing
import DerivationBelief.ReplicaNetwork
import DerivationBelief.Settings

/-!
# What learners share

A learner has a working directory, budgets, and a record of the nodes that were asked for.  It turns
observations into batches of numbered nodes, compiles its graph to networks in its working
directory, and may be cancelled in front of every network.
-/

namespace DerivationBelief

/-- Work may be given up from outside at any time, which shows at the next check. -/
inductive Cancellation where
  | never
  /-- Some checks still pass; the one behind them and all later ones do not. -/
  | after (checks : Nat)
deriving DecidableEq, Repr

instance : Coe Bool Cancellation where
  coe given := if given then .after 0 else .never

structure Workspace where
  files : FileTree
  cancelled : Cancellation

abbrev Observation := List (String × Bool)

abbrev Batch := List (Nat × Bool)

/-- A learner is clean when its network reflects every batch. -/
inductive LearnerState where
  | dirty
  | clean
deriving DecidableEq, Repr

structure LearnerContext (α : Type) where
  directory : String
  clauseLimit : Nat
  dumpArtifacts : Bool
  options : SolverOptions α
  ruleProbability : α
  /-- The clock of the estimation over so many batches.  An estimation that is repeated for them
  finds the same clock again. -/
  clocks : Nat → Clock
  queried : List (Nat × String)

/-- The observation of recorded values.  A value that is recorded again replaces the earlier one. -/
def Observation.ofRecords (records : List (String × Bool)) : Observation :=
  Arrival.putAll [] records

/-- The batch of an observation.  Nodes that the graph does not have are dropped. -/
def CausalGraph.batchOf {α : Type} (g : CausalGraph α) (observation : Observation) : Batch :=
  observation.filterMap (fun entry => (g.nodeId? entry.1).map (fun id => (id, entry.2)))

def threeDigits (n : Nat) : String :=
  let digits := Text.natDigits n
  String.ofList (List.replicate (3 - digits.length) '0' ++ digits)

namespace LearnerContext

variable {α : Type} [Scalar α]

def ofSettings (directory : String) (s : Settings α) : LearnerContext α where
  directory
  clauseLimit := s.effectiveClauseLimit
  dumpArtifacts := s.effectiveDumpArtifacts
  options := s.solverOptions
  ruleProbability := s.effectiveRuleProbability
  clocks := fun _ => .steady
  queried := []

variable (c : LearnerContext α)

def recordQuery (id : Nat) (node : String) : LearnerContext α :=
  if Arrival.hasKey c.queried id then c else { c with queried := c.queried ++ [(id, node)] }

def checkCancelled (w : Workspace) : Outcome (LearnerFault α) Unit Workspace :=
  match w.cancelled with
  | .never => (.ok (), w)
  | .after 0 => (.error .cancelled, w)
  | .after (checks + 1) => (.ok (), { w with cancelled := .after checks })

section Networks

variable [Numeral α]

def createNetwork (w : Workspace) (name : String) (graph : CausalGraph α) (repetitions : Nat)
    (bayesian : Bool) : Outcome (LearnerFault α) (ReplicaNetwork α) Workspace :=
  match checkCancelled w with
  | (.error fault, w) => (.error fault, w)
  | (.ok (), w) =>
      let files := if c.dumpArtifacts then graph.writeListing w.files c.directory else w.files
      match ReplicaNetwork.create files c.directory name graph repetitions bayesian c.clauseLimit
          c.options with
      | (.ok network, files) => (.ok network, { w with files })
      | (.error cause, files) => (.error (.network cause), { w with files })

def retire (w : Workspace) (network : Option (ReplicaNetwork α)) (name : String) : Workspace :=
  match network with
  | some old => { w with files := old.writeQueries w.files (joinPath c.directory name) }
  | none => w

end Networks

end LearnerContext

namespace ReplicaNetwork

variable {α : Type} [Scalar α]

def bindBatch (n : ReplicaNetwork α) (batch : Batch) (time : Nat) :
    Except (LearnerFault α) (ReplicaNetwork α) :=
  batch.foldlM
    (fun network entry => (network.observe entry.1 time entry.2).mapError .network) n

def updatedDists (n : ReplicaNetwork α) :
    List (Distribution α × Nat) →
      Outcome (LearnerFault α) (List (Distribution α)) (ReplicaNetwork α)
  | [] => (.ok [], n)
  | (d, id) :: rest =>
      match n.posterior id with
      | (.error cause, n) => (.error (.network cause), n)
      | (.ok belief, n) =>
          match d.reweigh belief with
          | .error cause => (.error (.distribution cause), n)
          | .ok updated =>
              match n.updatedDists rest with
              | (.error fault, n) => (.error fault, n)
              | (.ok more, n) => (.ok (updated :: more), n)

/-- Replace every distribution of a graph by its posterior.  A fault leaves the graph as it is. -/
def updateGraph (n : ReplicaNetwork α) (graph : CausalGraph α) :
    Outcome (LearnerFault α) (CausalGraph α) (ReplicaNetwork α) :=
  match n.updatedDists graph.dists.zipIdx with
  | (.ok dists, n) => (.ok { graph with dists }, n)
  | (.error fault, n) => (.error fault, n)

def ask {β L : Type} (question : ReplicaNetwork α → Outcome NetworkFault β (ReplicaNetwork α))
    (keep : L → ReplicaNetwork α → L)
    (refreshed : Outcome (LearnerFault α) (ReplicaNetwork α) (L × Workspace)) :
    Outcome (LearnerFault α) β (L × Workspace) :=
  match refreshed with
  | (.error fault, state) => (.error fault, state)
  | (.ok network, learner, w) =>
      match question network with
      | (answer, network) => (answer.mapError .network, keep learner network, w)

end ReplicaNetwork

end DerivationBelief

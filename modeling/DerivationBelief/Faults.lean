import DerivationBelief.Scalar

/-!
# What can go wrong

One type of causes for each part of the library, and one type that collects them for the caller.
A cause knows its message and the code under which the caller files it.  A cause that comes from
below keeps the cause below, whose code wins: evidence that contradicts a network is filed as such
however many layers report it.
-/

namespace DerivationBelief

inductive ProvenanceFault where
  | malformedTuple (input : String)
  | signCount (tuples signs : Nat)
  | unknownId (id : String)
  | unknownTuple (tuple : String)
  | notComputed (name : String)
  | unwritable (path : String)
deriving DecidableEq, Repr

inductive GraphFault where
  | unmetSingleton (node : String)
  | unmetHead (node : String)
  | unmetSub (head sub : String)
  | selfReference (head : String)
  | overlappedNode (node : String)
  | redundantNode (node : String)
  | nodeOutOfRange (id size : Nat)
  | distOutOfRange (id size : Nat)
deriving DecidableEq, Repr

inductive DistributionFault (α : Type) where
  | supportOutOfRange (value : α)
  | emptySupport
  | weightCount (expected actual : Nat)
  | zeroMass
deriving Repr

inductive CompileFault where
  | clauseLimit (limit : Nat)
  | missingDistribution (node dist : Nat)
  | unwritable (path : String)
deriving DecidableEq, Repr

inductive SolverFault where
  | unreadable (path : String)
  | malformed (path : String) (line : Nat) (reason : String)
  | variableOutOfRange (var count : Nat)
  | factorOutOfRange (factor count : Nat)
  | tableTooLarge (entries limit : Nat)
  | inconsistentEvidence
deriving DecidableEq, Repr

inductive NetworkFault where
  | nodeOutOfRange (node size : Nat)
  | timeOutOfRange (time horizon : Nat)
  | notAParameter (id count : Nat)
  | alreadyActivated (name : String)
  | released (name : String)
  | compile (cause : CompileFault)
  | solver (cause : SolverFault)
deriving DecidableEq, Repr

inductive LearnerFault (α : Type) where
  | unknownNode (node : String)
  | unknownKind (kind : String)
  | workDirectory (path : String)
  | graph (cause : GraphFault)
  | network (cause : NetworkFault)
  | distribution (cause : DistributionFault α)
  | cancelled
deriving Repr

inductive SettingsFault where
  | fileNotFound (path : String)
  | malformed (path : String)
  | invalid (field reason : String)
deriving DecidableEq, Repr

inductive Fault (α : Type) where
  | provenance (cause : ProvenanceFault)
  | graph (cause : GraphFault)
  | distribution (cause : DistributionFault α)
  | compile (cause : CompileFault)
  | solver (cause : SolverFault)
  | network (cause : NetworkFault)
  | learner (cause : LearnerFault α)
  | settings (cause : SettingsFault)
deriving Repr

variable {α : Type}

def ProvenanceFault.message : ProvenanceFault → String
  | .malformedTuple input => s!"Malformed tuple text: {input}"
  | .signCount tuples signs => s!"Sub tuples and signs differ in length: {tuples} vs {signs}"
  | .unknownId id => s!"Unmet id {id}"
  | .unknownTuple tuple => s!"Tuple {tuple} is missing from the clause index"
  | .notComputed name => s!"Provenance {name} has not been computed yet"
  | .unwritable path => s!"Failed to dump provenance to {path}"

def GraphFault.message : GraphFault → String
  | .unmetSingleton node => s!"unmet singleton {node}"
  | .unmetHead node => s!"unmet head {node}"
  | .unmetSub head sub => s!"unmet sub {sub} in head {head}"
  | .selfReference head => s!"ill-formed, head {head} exists in bodies"
  | .overlappedNode node => s!"overlapped node {node}"
  | .redundantNode node => s!"redundant node {node}"
  | .nodeOutOfRange id size => s!"node id {id} outside graph of {size} nodes"
  | .distOutOfRange id size => s!"distribution id {id} outside {size} distributions"

def DistributionFault.message [Numeral α] : DistributionFault α → String
  | .supportOutOfRange value => "Support value " ++ Numeral.text value ++ " out of range [0,1]"
  | .emptySupport => "Distribution needs at least one support value"
  | .weightCount expected actual => s!"Expected {expected} weights, got {actual}"
  | .zeroMass => "Weights must be finite, non-negative, and sum above zero"

def CompileFault.message : CompileFault → String
  | .clauseLimit limit => s!"Clause limit must be between 2 and 62, got {limit}"
  | .missingDistribution node dist =>
      s!"Stochastic node {node} refers to missing distribution {dist}"
  | .unwritable path => s!"Failed to write {path}"

def SolverFault.message : SolverFault → String
  | .unreadable path => s!"Failed to read {path}"
  | .malformed path line reason => s!"Parse error in {path} at line {line}: {reason}"
  | .variableOutOfRange var count =>
      s!"Variable {var} is not part of the network ({count} variables)"
  | .factorOutOfRange factor count =>
      s!"Factor {factor} is not part of the network ({count} factors)"
  | .tableTooLarge entries limit =>
      s!"Intermediate table of {entries} entries exceeds limit {limit}"
  | .inconsistentEvidence => "Evidence has zero probability under the network"

def NetworkFault.message : NetworkFault → String
  | .nodeOutOfRange node size => s!"Node {node} is not a causal node (graph has {size} nodes)"
  | .timeOutOfRange time horizon =>
      s!"Observation time {time} exceeds meta-network horizon {horizon}"
  | .notAParameter id count => s!"Id {id} is not a distribution node ({count} distributions)"
  | .alreadyActivated name =>
      s!"Meta-network {name}: inference has been activated, no observation"
  | .released name => s!"Meta-network {name} has been released"
  | .compile cause => "Compile error: " ++ cause.message
  | .solver cause => "Solver error: " ++ cause.message

def LearnerFault.message [Numeral α] : LearnerFault α → String
  | .unknownNode node => s!"Unknown causal node {node}"
  | .unknownKind kind => s!"Unknown driver kind {kind}"
  | .workDirectory path => s!"Failed to prepare work dir {path}"
  | .graph cause => "Graph error: " ++ cause.message
  | .network cause => "Network error: " ++ cause.message
  | .distribution cause => "Distribution error: " ++ cause.message
  | .cancelled => "Driver cancelled"

def SettingsFault.message : SettingsFault → String
  | .fileNotFound path => s!"Config file not found: {path}"
  | .malformed path => s!"Config parse error in {path}"
  | .invalid field reason => s!"Config validation failed for {field}: {reason}"

def Fault.message [Numeral α] : Fault α → String
  | .provenance cause => "Provenance error: " ++ cause.message
  | .graph cause => "Graph error: " ++ cause.message
  | .distribution cause => "Distribution error: " ++ cause.message
  | .compile cause => "Compile error: " ++ cause.message
  | .solver cause => "Solver error: " ++ cause.message
  | .network cause => "Network error: " ++ cause.message
  | .learner cause => "Driver error: " ++ cause.message
  | .settings cause => "Configuration error: " ++ cause.message

def ProvenanceFault.code : ProvenanceFault → String
  | .unwritable _ => "IO_ERROR"
  | _ => "PROVENANCE_ERROR"

def CompileFault.code : CompileFault → String
  | .unwritable _ => "IO_ERROR"
  | _ => "COMPILE_ERROR"

def SolverFault.code : SolverFault → String
  | .unreadable _ => "IO_ERROR"
  | .inconsistentEvidence => "INCONSISTENT_EVIDENCE"
  | _ => "SOLVER_ERROR"

def NetworkFault.code : NetworkFault → String
  | .compile cause => cause.code
  | .solver cause => cause.code
  | _ => "NETWORK_ERROR"

def LearnerFault.code : LearnerFault α → String
  | .graph _ => "GRAPH_ERROR"
  | .network cause => cause.code
  | .distribution _ => "DISTRIBUTION_ERROR"
  | .cancelled => "CANCELLED"
  | _ => "DRIVER_ERROR"

def Fault.code : Fault α → String
  | .provenance cause => cause.code
  | .graph _ => "GRAPH_ERROR"
  | .distribution _ => "DISTRIBUTION_ERROR"
  | .compile cause => cause.code
  | .solver cause => cause.code
  | .network cause => cause.code
  | .learner cause => cause.code
  | .settings _ => "CONFIG_ERROR"

/-- The text handed to the caller: the code in brackets, then the message. -/
def Fault.codedMessage [Numeral α] (fault : Fault α) : String :=
  "[" ++ fault.code ++ "] " ++ fault.message

end DerivationBelief

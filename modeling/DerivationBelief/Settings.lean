import DerivationBelief.ExactNetwork
import DerivationBelief.FactorGraph

/-!
# Settings

Every setting may be left open; an open setting takes its default.  Settings come in layers: what a
higher layer sets wins, and what it leaves open falls through to the layer below.
-/

namespace DerivationBelief

structure Settings (α : Type) where
  prune : Option Bool := none
  augment : Option Bool := none
  clauseLimit : Option Nat := none
  dumpArtifacts : Option Bool := none
  maxIterations : Option Nat := none
  maxSeconds : Option Nat := none
  tolerance : Option α := none
  estimationRounds : Option Nat := none
  maxTableEntries : Option Nat := none
  kind : Option String := none
  ruleProbability : Option α := none
  workDirectory : Option String := none
deriving Repr

namespace Settings

variable {α : Type}

def layeredOver (top base : Settings α) : Settings α where
  prune := top.prune <|> base.prune
  augment := top.augment <|> base.augment
  clauseLimit := top.clauseLimit <|> base.clauseLimit
  dumpArtifacts := top.dumpArtifacts <|> base.dumpArtifacts
  maxIterations := top.maxIterations <|> base.maxIterations
  maxSeconds := top.maxSeconds <|> base.maxSeconds
  tolerance := top.tolerance <|> base.tolerance
  estimationRounds := top.estimationRounds <|> base.estimationRounds
  maxTableEntries := top.maxTableEntries <|> base.maxTableEntries
  kind := top.kind <|> base.kind
  ruleProbability := top.ruleProbability <|> base.ruleProbability
  workDirectory := top.workDirectory <|> base.workDirectory

section Defaults

variable (s : Settings α)

def effectivePrune : Bool := s.prune.getD true

def effectiveAugment : Bool := s.augment.getD true

def effectiveClauseLimit : Nat := s.clauseLimit.getD 4

def effectiveDumpArtifacts : Bool := s.dumpArtifacts.getD false

def effectiveKind : String := s.kind.getD "iterating"

def effectiveWorkDirectory : String := s.workDirectory.getD "credence-out"

variable [Scalar α]

def defaultRuleProbability : α :=
  Scalar.ofCount 999 / Scalar.ofCount 1000

def effectiveRuleProbability : α := s.ruleProbability.getD defaultRuleProbability

def solverOptions : SolverOptions α :=
  let default : SolverOptions α := .default
  { maxIterations := s.maxIterations.getD default.maxIterations
    maxSeconds := s.maxSeconds.getD default.maxSeconds
    tolerance := s.tolerance.getD default.tolerance
    estimationRounds := s.estimationRounds.getD default.estimationRounds
    maxTableEntries := s.maxTableEntries.getD default.maxTableEntries }

def isProper (x : α) : Bool :=
  Scalar.less 0 x && Scalar.less x 1

def checks : List (Bool × SettingsFault) :=
  [(s.clauseLimit.all (fun limit => 2 ≤ limit && limit ≤ FactorGraph.maxClauseLimit),
      .invalid "compiler.clause_limit" s!"must be between 2 and {FactorGraph.maxClauseLimit}"),
    (s.ruleProbability.all isProper,
      .invalid "driver.rule_prob" "must be strictly between 0.0 and 1.0"),
    (s.tolerance.all (fun tolerance => Scalar.less 0 tolerance),
      .invalid "solver.tolerance" "must be greater than 0"),
    (s.maxTableEntries ≠ some 0,
      .invalid "solver.max_table_entries" "must be greater than 0")]

def validate : Except SettingsFault Unit :=
  match s.checks.find? (fun check => !check.1) with
  | some (_, fault) => .error fault
  | none => .ok ()

end Defaults

end Settings

end DerivationBelief

import DerivationBelief.FileTree
import DerivationBelief.SettingsText

/-!
# Layers of settings

Settings are collected from the file of the user, the file of the project, the environment and the
overrides of the caller, from the lowest layer to the highest.  The collected settings have to be
valid; a layer on its own need not be.
-/

namespace DerivationBelief

structure Overrides where
  prune : Option Bool := none
  augment : Option Bool := none
  clauseLimit : Option Nat := none
  kind : Option String := none
  workDirectory : Option String := none
deriving Repr

namespace Settings

variable {α : Type}

def ofOverrides (o : Overrides) : Settings α :=
  { prune := o.prune, augment := o.augment, clauseLimit := o.clauseLimit, kind := o.kind
    workDirectory := o.workDirectory }

abbrev Environment := List (String × String)

def truthOf? (text : String) : Option Bool :=
  if text = "true" then some true else if text = "false" then some false else none

/-- The settings in the environment.  A variable whose text is not of the type of its setting sets
nothing. -/
def ofEnvironment [Numeral α] (env : Environment) : Settings α :=
  let text? (name : String) : Option String := Arrival.get? env ("CREDENCE_" ++ name)
  let truth? (name : String) : Option Bool := text? name >>= truthOf?
  let count? (name : String) : Option Nat :=
    text? name >>= fun text => Text.readBelow? Text.word64 text.toList
  let number? (name : String) : Option α := text? name >>= fun text => Numeral.read? text.toList
  { prune := truth? "PROVENANCE_PRUNE"
    augment := truth? "PROVENANCE_AUGMENT"
    clauseLimit := count? "COMPILER_CLAUSE_LIMIT"
    dumpArtifacts := truth? "COMPILER_DUMP_ARTIFACTS"
    maxIterations := count? "SOLVER_MAX_ITER"
    maxSeconds := count? "SOLVER_MAX_TIME_SECS"
    tolerance := number? "SOLVER_TOLERANCE"
    kind := text? "DRIVER_KIND"
    ruleProbability := number? "DRIVER_RULE_PROB"
    workDirectory := text? "DRIVER_WORK_DIR" }

variable [Numeral α]

def ofFile (tree : FileTree) (path : String) : Except SettingsFault (Settings α) :=
  match tree.read? path with
  | some text => read path text
  | none => .error (.fileNotFound path)

def userPath? (env : Environment) : Option String :=
  (Arrival.get? env "HOME" <|> Arrival.get? env "USERPROFILE").map (fun home =>
    joinPath (joinPath home ".credence") "config.toml")

/-- The settings of the user.  A file that cannot be read sets nothing. -/
def userLayer (tree : FileTree) (env : Environment) : Except SettingsFault (Settings α) :=
  match userPath? env with
  | none => .ok {}
  | some path =>
      if tree.exists? path then
        match ofFile tree path with
        | .error (.fileNotFound _) => .ok {}
        | result => result
      else .ok {}

def projectLayer (tree : FileTree) (root : String) : Except SettingsFault (Settings α) :=
  let path := joinPath root "credence.toml"
  if tree.exists? path then ofFile tree path else .ok {}

def load [Scalar α] (tree : FileTree) (env : Environment) (root : String)
    (overrides : Option Overrides) : Except SettingsFault (Settings α) := do
  let user ← userLayer tree env
  let project ← projectLayer tree root
  let caller := (overrides.map ofOverrides).getD {}
  let settings := caller.layeredOver ((ofEnvironment env).layeredOver (project.layeredOver user))
  settings.validate
  return settings

end Settings

end DerivationBelief

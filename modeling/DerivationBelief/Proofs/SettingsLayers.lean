import DerivationBelief.Proofs.FaultyRuns
import DerivationBelief.Proofs.FileTree
import DerivationBelief.Proofs.OneShotRuns
import DerivationBelief.Proofs.UnsignedNumeral
import DerivationBelief.SettingsLayers
import Mathlib.Tactic

/-!
# Settings are resolved one by one

Every setting takes the value of the highest layer that sets it: the overrides of the caller, the
environment, the file of the project, the file of the user.  Only the settings that result from all
layers are checked.  So a layer matters where no higher one sets a value, and nowhere else.
-/

namespace DerivationBelief

/-! ## Settings by name -/

/-- What the text of a variable in the environment is read as. -/
inductive SettingType where
  | truth
  | count
  | number
  | verbatim

def SettingType.Value (α : Type) : SettingType → Type
  | .truth => Bool
  | .count => Nat
  | .number => α
  | .verbatim => String

inductive SettingKey where
  | prune
  | augment
  | clauseLimit
  | dumpArtifacts
  | maxIterations
  | maxSeconds
  | tolerance
  | estimationRounds
  | maxTableEntries
  | kind
  | ruleProbability
  | workDirectory
deriving DecidableEq, Repr

namespace SettingKey

def type : SettingKey → SettingType
  | prune | augment | dumpArtifacts => .truth
  | clauseLimit | maxIterations | maxSeconds | estimationRounds | maxTableEntries => .count
  | tolerance | ruleProbability => .number
  | kind | workDirectory => .verbatim

/-- The variable that sets a setting in the environment.  Two settings have none. -/
def environmentName? : SettingKey → Option String
  | prune => some "CREDENCE_PROVENANCE_PRUNE"
  | augment => some "CREDENCE_PROVENANCE_AUGMENT"
  | clauseLimit => some "CREDENCE_COMPILER_CLAUSE_LIMIT"
  | dumpArtifacts => some "CREDENCE_COMPILER_DUMP_ARTIFACTS"
  | maxIterations => some "CREDENCE_SOLVER_MAX_ITER"
  | maxSeconds => some "CREDENCE_SOLVER_MAX_TIME_SECS"
  | tolerance => some "CREDENCE_SOLVER_TOLERANCE"
  | estimationRounds => none
  | maxTableEntries => none
  | kind => some "CREDENCE_DRIVER_KIND"
  | ruleProbability => some "CREDENCE_DRIVER_RULE_PROB"
  | workDirectory => some "CREDENCE_DRIVER_WORK_DIR"

end SettingKey

variable {α : Type}

def Settings.get (s : Settings α) : (key : SettingKey) → Option (key.type.Value α)
  | .prune => s.prune
  | .augment => s.augment
  | .clauseLimit => s.clauseLimit
  | .dumpArtifacts => s.dumpArtifacts
  | .maxIterations => s.maxIterations
  | .maxSeconds => s.maxSeconds
  | .tolerance => s.tolerance
  | .estimationRounds => s.estimationRounds
  | .maxTableEntries => s.maxTableEntries
  | .kind => s.kind
  | .ruleProbability => s.ruleProbability
  | .workDirectory => s.workDirectory

def Overrides.get (o : Overrides) : (key : SettingKey) → Option (key.type.Value α)
  | .prune => o.prune
  | .augment => o.augment
  | .clauseLimit => o.clauseLimit
  | .kind => o.kind
  | .workDirectory => o.workDirectory
  | .dumpArtifacts | .maxIterations | .maxSeconds | .tolerance | .estimationRounds
  | .maxTableEntries | .ruleProbability => none

namespace Settings

/-- The settings have no parts but the twelve that have names. -/
theorem ext_get {s t : Settings α} (hget : ∀ key, s.get key = t.get key) : s = t := by
  cases s
  cases t
  rw [Settings.mk.injEq]
  exact ⟨hget .prune, hget .augment, hget .clauseLimit, hget .dumpArtifacts, hget .maxIterations,
    hget .maxSeconds, hget .tolerance, hget .estimationRounds, hget .maxTableEntries, hget .kind,
    hget .ruleProbability, hget .workDirectory⟩

@[simp] theorem get_empty (key : SettingKey) : ({} : Settings α).get key = none := by
  cases key <;> rfl

@[simp] theorem get_layeredOver (top base : Settings α) (key : SettingKey) :
    (top.layeredOver base).get key = (top.get key <|> base.get key) := by
  cases key <;> rfl

@[simp] theorem get_ofOverrides (o : Overrides) (key : SettingKey) :
    (ofOverrides o : Settings α).get key = o.get key := by
  cases key <;> rfl

end Settings

/-! ## The layers -/

section Layers

variable [Numeral α]

/-- A value that a text stands for. -/
def SettingType.Parses : (type : SettingType) → String → type.Value α → Prop
  | .truth, text, value => text = Settings.truthText value
  | .count, text, (value : Nat) => Text.NumeralOf value text.toList ∧ value < Text.word64
  | .number, text, (value : α) => Numeral.read? text.toList = some value
  | .verbatim, text, value => text = value

theorem Settings.truthOf?_eq_some_iff {text : String} {value : Bool} :
    truthOf? text = some value ↔ text = truthText value := by
  unfold truthOf?
  cases value
  · by_cases htrue : text = "true"
    · subst text
      decide
    · simp [htrue, truthText]
  · simp [truthText]

/-- How the text of a variable is read. -/
def SettingType.parse? : (type : SettingType) → String → Option (type.Value α)
  | .truth, text => Settings.truthOf? text
  | .count, text => Text.readBelow? Text.word64 text.toList
  | .number, text => (Numeral.read? text.toList : Option α)
  | .verbatim, text => some text

theorem SettingType.parse?_eq_some_iff {type : SettingType} {text : String}
    {value : type.Value α} : type.parse? text = some value ↔ type.Parses text value := by
  cases type with
  | truth => exact Settings.truthOf?_eq_some_iff
  | count => exact Text.readBelow?_eq_some_iff
  | number => exact Iff.rfl
  | verbatim => exact Option.some_inj

namespace Settings

theorem get_ofEnvironment (env : Environment) (key : SettingKey) :
    (ofEnvironment env : Settings α).get key =
      (key.environmentName?.bind (Arrival.get? env)).bind key.type.parse? := by
  cases key
  case kind | workDirectory => exact (Option.bind_fun_some _).symm
  all_goals rfl

/-- What the environment sets: the value that the variable of a setting stands for. -/
theorem get_ofEnvironment_eq_some_iff {env : Environment} {key : SettingKey}
    {value : key.type.Value α} :
    (ofEnvironment env : Settings α).get key = some value ↔
      ∃ name text, key.environmentName? = some name ∧ Arrival.get? env name = some text ∧
        key.type.Parses text value := by
  rw [get_ofEnvironment]
  simp only [Option.bind_eq_some_iff, SettingType.parse?_eq_some_iff]
  constructor
  · rintro ⟨text, ⟨name, hname, htext⟩, hvalue⟩
    exact ⟨name, text, hname, htext, hvalue⟩
  · rintro ⟨name, text, hname, htext, hvalue⟩
    exact ⟨text, ⟨name, hname, htext⟩, hvalue⟩

/-- What a file sets: nothing when it is absent, and what it reads as when it can be parsed. -/
inductive FileSets (tree : FileTree) (path : String) : Settings α → Prop
  | absent (habsent : tree.exists? path = false) : FileSets tree path {}
  | parsed {text : String} {s : Settings α} (htext : tree.read? path = some text)
      (hparsed : read path text = .ok s) : FileSets tree path s

/-- What the file of the user sets.  Without a home, or when it cannot be read, it sets nothing. -/
inductive UserSets (tree : FileTree) (env : Environment) : Settings α → Prop
  | homeless (hpath : userPath? env = none) : UserSets tree env {}
  | unreadable {path : String} (hpath : userPath? env = some path)
      (hunreadable : tree.read? path = none) : UserSets tree env {}
  | file {path : String} {s : Settings α} (hpath : userPath? env = some path)
      (hfile : FileSets tree path s) : UserSets tree env s

theorem userLayer_eq {tree : FileTree} {env : Environment} {user : Settings α}
    (huser : UserSets tree env user) : userLayer tree env = .ok user := by
  unfold userLayer
  cases huser with
  | homeless hpath => rw [hpath]
  | unreadable hpath hunreadable =>
      rw [hpath]
      simp only [ofFile, hunreadable]
      split <;> rfl
  | file hpath hfile =>
      rw [hpath]
      cases hfile with
      | absent habsent => simp only [habsent, Bool.false_eq_true, if_false]
      | parsed htext hparsed =>
          simp only [ofFile, htext, hparsed, FileTree.exists?_of_read? htext, if_true]

theorem projectLayer_eq {tree : FileTree} {root : String} {project : Settings α}
    (hproject : FileSets tree (joinPath root "credence.toml") project) :
    projectLayer tree root = .ok project := by
  unfold projectLayer
  cases hproject with
  | absent habsent => simp only [habsent, Bool.false_eq_true, if_false]
  | parsed htext hparsed =>
      simp only [ofFile, htext, hparsed, FileTree.exists?_of_read? htext, if_true]

end Settings

end Layers

namespace Settings

/-! ## Valid settings -/

section Validity

variable [Scalar α]

/-- Settings that pass all checks.  An open setting passes. -/
structure Valid (s : Settings α) : Prop where
  clauseLimit : ∀ limit ∈ s.clauseLimit, 2 ≤ limit ∧ limit ≤ FactorGraph.maxClauseLimit
  ruleProbability : ∀ p ∈ s.ruleProbability, Scalar.less 0 p = true ∧ Scalar.less p 1 = true
  tolerance : ∀ tolerance ∈ s.tolerance, Scalar.less 0 tolerance = true
  maxTableEntries : ∀ count ∈ s.maxTableEntries, 0 < count

theorem validate_eq_ok_iff {s : Settings α} : s.validate = .ok () ↔ s.Valid := by
  have hpassed : s.validate = .ok () ↔ ∀ check ∈ s.checks, check.1 = true := by
    unfold validate
    cases hfound : s.checks.find? (fun check => !check.1) with
    | none => simpa using List.find?_eq_none.mp hfound
    | some check =>
        have hfailed := List.find?_some hfound
        simp only [reduceCtorEq, false_iff, not_forall]
        exact ⟨check, List.mem_of_find?_eq_some hfound, by simpa using hfailed⟩
  rw [hpassed]
  unfold checks
  simp only [List.forall_mem_cons, Option.all_eq_true, Bool.and_eq_true, decide_eq_true_eq,
    isProper]
  constructor
  · rintro ⟨hlimit, hprobability, htolerance, hentries, _⟩
    refine ⟨hlimit, hprobability, htolerance, ?_⟩
    rintro count hcount
    exact Nat.pos_of_ne_zero (fun hzero => hentries (hzero ▸ hcount))
  · rintro ⟨hlimit, hprobability, htolerance, hentries⟩
    refine ⟨hlimit, hprobability, htolerance, ?_, by simp⟩
    exact fun hzero => lt_irrefl 0 (hentries 0 hzero)

end Validity

/-! ## Resolution -/

/-- The settings that some layers give together, the highest one first. -/
def resolve (layers : List (Settings α)) : Settings α :=
  layers.foldr layeredOver {}

/-- The value of a setting is that of the highest layer that sets it. -/
theorem get_resolve (layers : List (Settings α)) (key : SettingKey) :
    (resolve layers).get key = layers.findSome? (fun layer => layer.get key) := by
  induction layers with
  | nil => exact get_empty key
  | cons layer layers ih =>
      rw [resolve, List.foldr_cons, get_layeredOver, List.findSome?_cons]
      cases layer.get key with
      | none => exact ih
      | some value => rfl

section Layers

variable [Numeral α]

def ofCaller (overrides : Option Overrides) : Settings α :=
  (overrides.map ofOverrides).getD {}

omit [Numeral α] in
theorem get_ofCaller (overrides : Option Overrides) (key : SettingKey) :
    (ofCaller overrides : Settings α).get key = overrides.bind (fun o => o.get key) := by
  cases overrides with
  | none => exact get_empty key
  | some o => exact get_ofOverrides o key

/-- All layers, the highest one first. -/
def layers (overrides : Option Overrides) (env : Environment) (project user : Settings α) :
    List (Settings α) :=
  [ofCaller overrides, ofEnvironment env, project, user]

/-- The layer of the project matters for settings that the layers above leave open, and that of the
user for those that the project leaves open as well. -/
theorem resolve_layers_congr {overrides : Option Overrides} {env : Environment}
    {project user otherProject otherUser : Settings α}
    (hproject : ∀ key, (ofCaller overrides : Settings α).get key = none →
      (ofEnvironment env : Settings α).get key = none → otherProject.get key = project.get key)
    (huser : ∀ key, (ofCaller overrides : Settings α).get key = none →
      (ofEnvironment env : Settings α).get key = none → project.get key = none →
        otherUser.get key = user.get key) :
    resolve (layers overrides env otherProject otherUser) =
      resolve (layers overrides env project user) := by
  apply ext_get
  intro key
  simp only [get_resolve, layers, List.findSome?_cons]
  cases hcaller : (ofCaller overrides : Settings α).get key with
  | some value => rfl
  | none =>
      cases henv : (ofEnvironment env : Settings α).get key with
      | some value => rfl
      | none =>
          rw [hproject key hcaller henv]
          cases hset : project.get key with
          | some value => rfl
          | none => rw [huser key hcaller henv hset]

variable [Scalar α] {tree : FileTree} {env : Environment} {root : String}
  {overrides : Option Overrides} {user project : Settings α}

/-- Loading checks the settings that all layers give together, and nothing else. -/
theorem load_eq (huser : UserSets tree env user)
    (hproject : FileSets tree (joinPath root "credence.toml") project) :
    load tree env root overrides =
      ((resolve (layers overrides env project user)).validate >>= fun _ =>
        .ok (resolve (layers overrides env project user))) := by
  -- The open settings below all layers change nothing.
  have hlowest : user.layeredOver {} = user := by
    apply ext_get
    intro key
    rw [get_layeredOver, get_empty]
    cases user.get key <;> rfl
  unfold load
  rw [userLayer_eq huser, projectLayer_eq hproject]
  simp only [resolve, layers, List.foldr_cons, List.foldr_nil, hlowest]
  rfl

/-- Every setting is that of the highest layer that sets it.  Loading gives these settings exactly
when they are valid, and reports what is wrong with them otherwise.  The overrides of the caller set
what they hold, and the environment what the text of a variable stands for; other texts set nothing.
So what a layer says about a setting that a higher one sets does not matter, even if it is not
valid. -/
theorem load_resolves (huser : UserSets tree env user)
    (hproject : FileSets tree (joinPath root "credence.toml") project) :
    let layers : List (Settings α) := [ofCaller overrides, ofEnvironment env, project, user]
    (∀ c, load tree env root overrides = .ok c ↔
        (∀ key, c.get key = layers.findSome? (fun layer => layer.get key)) ∧
          c.validate = .ok ()) ∧
      (∀ fault, load (α := α) tree env root overrides = .error fault ↔
        (resolve layers).validate = .error fault) ∧
      (∀ c : Settings α, c.validate = .ok () ↔ c.Valid) ∧
      (∀ key, (ofCaller overrides : Settings α).get key = overrides.bind (fun o => o.get key)) ∧
      (∀ key value, (ofEnvironment env : Settings α).get key = some value ↔
        ∃ name text, key.environmentName? = some name ∧ Arrival.get? env name = some text ∧
          key.type.Parses text value) ∧
      ∀ (otherTree : FileTree) (otherUser otherProject : Settings α),
        UserSets otherTree env otherUser →
        FileSets otherTree (joinPath root "credence.toml") otherProject →
        (∀ key, (ofCaller overrides : Settings α).get key = none →
          (ofEnvironment env : Settings α).get key = none →
            otherProject.get key = project.get key ∧
              (project.get key = none → otherUser.get key = user.get key)) →
          load (α := α) otherTree env root overrides = load tree env root overrides := by
  intro layers
  have hload : load tree env root overrides = _ := load_eq huser hproject
  refine ⟨fun c => ⟨?_, ?_⟩, fun fault => ?_, fun c => validate_eq_ok_iff, get_ofCaller overrides,
    fun key value => get_ofEnvironment_eq_some_iff, ?_⟩
  · intro hc
    obtain ⟨_, hvalid, hresolved⟩ := bind_eq_ok_iff.mp (hload.symm.trans hc)
    cases hresolved
    exact ⟨get_resolve layers, hvalid⟩
  · rintro ⟨hget, hvalid⟩
    have hc : c = resolve layers :=
      ext_get (fun key => (hget key).trans (get_resolve layers key).symm)
    rw [hload, bind_eq_ok_iff]
    exact ⟨(), hc ▸ hvalid, congrArg Except.ok hc.symm⟩
  · rw [hload, bind_eq_error_iff]
    simp only [reduceCtorEq, and_false, exists_false, or_false]
    rfl
  · intro otherTree otherUser otherProject hotherUser hotherProject hsame
    rw [hload, load_eq hotherUser hotherProject,
      resolve_layers_congr (fun key hcaller henv => (hsame key hcaller henv).1)
        (fun key hcaller henv => (hsame key hcaller henv).2)]

end Layers

/-- A project with a limit that is not allowed. -/
def wideProject : FileTree :=
  ⟨[(["credence.toml"], .file "[compiler]\nclause_limit = 100\n")]⟩

theorem wideProject_sets :
    FileSets wideProject (joinPath "" "credence.toml")
      ({ clauseLimit := some 100 } : Settings ℚ) := by
  have hpath : joinPath "" "credence.toml" = "credence.toml" := by
    decide +kernel
  have hname : FileTree.PlainName "credence.toml" := by
    constructor <;> decide +kernel
  rw [hpath]
  have htext : wideProject.read? "credence.toml" = some "[compiler]\nclause_limit = 100\n" :=
    FileTree.read?_of_lookup? (hname.place? wideProject) (by decide)
  exact .parsed htext (by rfl)

/-- The limit of the project makes loading fail, unless the environment sets another one.  That a
truth value cannot be read there sets nothing. -/
theorem wideProject_loads :
    let env : Environment :=
      [("CREDENCE_COMPILER_CLAUSE_LIMIT", "+5"), ("CREDENCE_PROVENANCE_PRUNE", "yes")]
    UserSets wideProject env ({} : Settings ℚ) ∧
      (∃ fault, load (α := ℚ) wideProject [] "" none = .error fault) ∧
      ∃ c : Settings ℚ, load wideProject env "" none = .ok c ∧ c.clauseLimit = some 5 ∧
        c.prune = none := by
  intro env
  have huser : UserSets wideProject env ({} : Settings ℚ) := .homeless (by decide)
  refine ⟨huser, ?_, ?_⟩
  · have hbare : UserSets wideProject [] ({} : Settings ℚ) := .homeless (by decide)
    have hresolves := @load_resolves ℚ _ _ wideProject [] "" none _ _ hbare wideProject_sets
    exact ⟨_, (hresolves.2.1 _).mpr rfl⟩
  · have hresolves := @load_resolves ℚ _ _ wideProject env "" none _ _ huser wideProject_sets
    refine ⟨_, (hresolves.1 _).mpr ⟨get_resolve _, ?_⟩, ?_, ?_⟩
    · decide +kernel
    · decide +kernel
    · decide +kernel

end Settings

end DerivationBelief

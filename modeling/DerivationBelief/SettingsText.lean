import DerivationBelief.Settings
import DerivationBelief.TomlDocument

/-!
# Settings in TOML

The settings stand in four tables.  Reading accepts any TOML document whose known keys have values
of the right type and in range; unknown keys are passed over.  A table may also be given as the
array of its first settings.  Writing gives the four tables with the settings that are not open.
-/

namespace DerivationBelief.Settings

variable {α : Type}

section Reading

def tableValues? (keys : List String) : Option Toml → Option (List (Option Toml))
  | none => some (keys.map (fun _ => none))
  | some (.table _ members) => some (keys.map (Toml.find? members))
  | some (.array elements) => some ((List.range keys.length).map (fun k => elements[k]?))
  | some (.tables elements) => some ((List.range keys.length).map (fun k => elements[k]?))
  | some .moment => some (keys.map (fun _ => none))
  | some _ => none

def setting? {β : Type} (read : Toml → Option β) : Option Toml → Option (Option β)
  | none => some none
  | some value => (read value).map some

def readTruth? : Toml → Option Bool
  | .boolean value => some value
  | _ => none

def readText? : Toml → Option String
  | .string text => some text
  | _ => none

def readBelow? (bound : Nat) : Toml → Option Nat
  | .integer (.ofNat value) => if value < bound then some value else none
  | _ => none

def readNumber? [Numeral α] : Toml → Option α
  | .float literal => Numeral.read? literal
  | .integer value => Numeral.read? (toString value).toList
  | _ => none

def provenanceKeys : List String := ["prune", "augment"]

def compilerKeys : List String := ["clause_limit", "dump_artifacts"]

def solverKeys : List String :=
  ["max_iter", "max_time_secs", "tolerance", "em_max_iterations", "max_table_entries"]

def learnerKeys : List String := ["kind", "rule_prob", "work_dir"]

variable [Numeral α]

def ofMembers? (root : Toml.Members) : Option (Settings α) := do
  let provenance ← tableValues? provenanceKeys (Toml.find? root "provenance")
  let compiler ← tableValues? compilerKeys (Toml.find? root "compiler")
  let solver ← tableValues? solverKeys (Toml.find? root "solver")
  let learner ← tableValues? learnerKeys (Toml.find? root "driver")
  match provenance, compiler, solver, learner with
  | [prune, augment], [clauseLimit, dumpArtifacts],
      [maxIterations, maxSeconds, tolerance, estimationRounds, maxTableEntries],
      [kind, ruleProbability, workDirectory] =>
      return {
        prune := ← setting? readTruth? prune
        augment := ← setting? readTruth? augment
        clauseLimit := ← setting? (readBelow? Text.word64) clauseLimit
        dumpArtifacts := ← setting? readTruth? dumpArtifacts
        maxIterations := ← setting? (readBelow? Text.word64) maxIterations
        maxSeconds := ← setting? (readBelow? Text.word64) maxSeconds
        tolerance := ← setting? readNumber? tolerance
        estimationRounds := ← setting? (readBelow? Text.word32) estimationRounds
        maxTableEntries := ← setting? (readBelow? Text.word64) maxTableEntries
        kind := ← setting? readText? kind
        ruleProbability := ← setting? readNumber? ruleProbability
        workDirectory := ← setting? readText? workDirectory }
  | _, _, _, _ => none

def read (label text : String) : Except SettingsFault (Settings α) :=
  match Toml.readDocument? text >>= ofMembers? with
  | some settings => .ok settings
  | none => .error (.malformed label)

end Reading

section Strings

inductive StringStyle where
  | escaped
  | literal
  | escapedLines
  | literalLines
deriving DecidableEq, Repr

def longestRun (c : Char) (cs : List Char) : Nat :=
  (cs.foldl
    (fun (state : Nat × Nat) d =>
      if d = c then (state.1 + 1, max state.2 (state.1 + 1)) else (0, state.2))
    (0, 0)).2

/-- The first way in which nothing has to be escaped: double quotes on one line, single quotes on
one line, double quotes on several lines, single quotes on several lines.  On several lines up to
two quotes in a row do not end the string.  Where no way will do, escapes are used. -/
def stringStyle (cs : List Char) : StringStyle :=
  let several := cs.contains '\n'
  let plain := cs.all (fun c => c = '\n' || Toml.isPlain c)
  let unescaped := plain && !cs.contains '\\'
  if unescaped && !several && longestRun '"' cs = 0 then .escaped
  else if plain && !several && longestRun '\'' cs = 0 then .literal
  else if unescaped && longestRun '"' cs ≤ 2 then .escapedLines
  else if plain && longestRun '\'' cs ≤ 2 then .literalLines
  else if several then .escapedLines
  else .escaped

/-- The escaped form of a character other than a quote.  In a string of several lines a line feed
stands for itself. -/
def escapedChar (several : Bool) (c : Char) : List Char :=
  if c = '\n' ∧ several then ['\n']
  else
    match c with
    | '\x08' => ['\\', 'b']
    | '\t' => ['\\', 't']
    | '\n' => ['\\', 'n']
    | '\x0c' => ['\\', 'f']
    | '\r' => ['\\', 'r']
    | '\\' => ['\\', '\\']
    | c =>
        if c.toNat < 0x20 ∨ c.toNat = 0x7F then
          let digits := (Nat.toDigits 16 c.toNat).map Char.toUpper
          ['\\', 'u'] ++ List.replicate (4 - digits.length) '0' ++ digits
        else [c]

/-- The characters between double quotes.  A quote stands for itself while the run of such quotes in
front of it is short enough: two on several lines, none on one line. -/
def escapedText (several : Bool) : Nat → List Char → List Char
  | _, [] => []
  | run, c :: rest =>
      if c = '"' then
        if run < (if several then 2 else 0) then '"' :: escapedText several (run + 1) rest
        else '\\' :: '"' :: escapedText several 0 rest
      else escapedChar several c ++ escapedText several 0 rest

def stringText (text : String) : String :=
  let cs := text.toList
  let start := if cs.contains '\n' then "\n" else ""
  match stringStyle cs with
  | .escaped => "\"" ++ String.ofList (escapedText false 0 cs) ++ "\""
  | .literal => "'" ++ text ++ "'"
  | .escapedLines => "\"\"\"" ++ start ++ String.ofList (escapedText true 0 cs) ++ "\"\"\""
  | .literalLines => "'''" ++ start ++ text ++ "'''"

end Strings

section Writing

def truthText (value : Bool) : String :=
  if value then "true" else "false"

/-- Whole numbers are written up to the greatest one of a 64-bit field with a sign. -/
def countText? (value : Nat) : Option String :=
  if value < Nat.pow 2 63 then some s!"{value}" else none

def settingLine? (key : String) (text? : Option (Option String)) : Option (List String) :=
  match text? with
  | none => some []
  | some none => none
  | some (some text) => some [key ++ " = " ++ text ++ "\n"]

def tableLines? (name : String) (keys : List String) (texts : List (Option (Option String))) :
    Option String := do
  let lines ← (keys.zip texts).mapM (fun entry => settingLine? entry.1 entry.2)
  return "[" ++ name ++ "]\n" ++ String.join lines.flatten

variable [Numeral α] (s : Settings α)

def texts? : Option (List String) := do
  let truth (value : Bool) : Option String := some (truthText value)
  let number (value : α) : Option String := some (Numeral.settingText value)
  let string (value : String) : Option String := some (stringText value)
  let provenance ← tableLines? "provenance" provenanceKeys
    [s.prune.map truth, s.augment.map truth]
  let compiler ← tableLines? "compiler" compilerKeys
    [s.clauseLimit.map countText?, s.dumpArtifacts.map truth]
  let solver ← tableLines? "solver" solverKeys
    [s.maxIterations.map countText?, s.maxSeconds.map countText?, s.tolerance.map number,
      s.estimationRounds.map countText?, s.maxTableEntries.map countText?]
  let learner ← tableLines? "driver" learnerKeys
    [s.kind.map string, s.ruleProbability.map number, s.workDirectory.map string]
  return [provenance, compiler, solver, learner]

def write : Except SettingsFault String :=
  match s.texts? with
  | some texts => .ok ("\n".intercalate texts)
  | none => .error (.malformed "<serialization>")

end Writing

end DerivationBelief.Settings

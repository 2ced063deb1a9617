/-!
# Values of TOML documents

Tables keep their members in order of arrival and remember how they came about, because that
decides what may be added to them later: a table under a header of its own and an inline table are
complete, a table that only lies on the way to another one is not.
-/

namespace DerivationBelief

inductive TomlOrigin where
  /-- Under a header of its own, or the root. -/
  | header
  /-- On the way to the table of a header. -/
  | onTheWay
  /-- By a dotted key. -/
  | dotted
  /-- As a value. -/
  | inline
deriving DecidableEq, Repr

inductive Toml where
  | string (text : String)
  | integer (value : Int)
  | float (literal : List Char)
  | boolean (value : Bool)
  | moment
  | array (elements : List Toml)
  | tables (elements : List Toml)
  | table (origin : TomlOrigin) (members : List (String × Toml))

namespace Toml

abbrev Members := List (String × Toml)

def find? (members : Members) (key : String) : Option Toml :=
  (members.find? (fun m => m.1 = key)).map Prod.snd

def replace (members : Members) (key : String) (value : Toml) : Members :=
  members.map (fun m => if m.1 = key then (key, value) else m)

abbrev Change := TomlOrigin → Members → Option Members

/-- Change the table at the end of a path.  Tables on the way are made where there are none.  A
dotted key may not enter a table that has a header, and nothing may enter an inline table. -/
def changeAt (dotted : Bool) (change : Change) : List String → Change
  | [], origin, members => change origin members
  | key :: path, _, members =>
      match find? members key with
      | none => do
          let origin : TomlOrigin := if dotted then .dotted else .onTheWay
          let inner ← changeAt dotted change path origin []
          return members ++ [(key, .table origin inner)]
      | some (.table origin inner) =>
          if origin = .inline ∨ (dotted ∧ origin = .header) then none
          else do
            let inner ← changeAt dotted change path origin inner
            return replace members key (.table origin inner)
      | some (.tables elements) =>
          match elements.getLast? with
          | some (.table origin inner) => do
              let inner ← changeAt dotted change path origin inner
              return replace members key (.tables (elements.dropLast ++ [.table origin inner]))
          | _ => none
      | some _ => none

structure Entry where
  path : List String
  key : String
  value : Toml

/-- Add a new member.  A dotted key adds only to a table that dotted keys have made, and a plain key
only to one that they have not. -/
def addMember (plain : Bool) (key : String) (value : Toml) : Change := fun origin members =>
  if decide (origin = .dotted) = plain then none
  else if (find? members key).isSome then none
  else some (members ++ [(key, value)])

def addEntry (origin : TomlOrigin) (members : Members) (entry : Entry) : Option Members :=
  changeAt true (addMember entry.path.isEmpty entry.key entry.value) entry.path origin members

def fill (origin : TomlOrigin) (members : Members) (entries : List Entry) : Option Members :=
  entries.foldlM (addEntry origin) members

structure Header where
  path : List String
  key : String
  doubled : Bool

def openTable (key : String) (entries : List Entry) : Change := fun _ members =>
  match find? members key with
  | none => do return members ++ [(key, .table .header (← fill .header [] entries))]
  | some (.table .onTheWay inner) => do
      return replace members key (.table .header (← fill .header inner entries))
  | some _ => none

def openNext (key : String) (entries : List Entry) : Change := fun _ members =>
  match find? members key with
  | none => do return members ++ [(key, .tables [.table .header (← fill .header [] entries)])]
  | some (.tables elements) => do
      let next := Toml.table .header (← fill .header [] entries)
      return replace members key (.tables (elements ++ [next]))
  | some _ => none

structure Section where
  header : Option Header
  entries : List Entry

def addSection (root : Members) (part : Section) : Option Members :=
  match part.header with
  | none => fill .header root part.entries
  | some header =>
      let change := if header.doubled then openNext else openTable
      changeAt false (change header.key part.entries) header.path .header root

def ofSections (sections : List Section) : Option Members :=
  sections.foldlM addSection []

end Toml

end DerivationBelief

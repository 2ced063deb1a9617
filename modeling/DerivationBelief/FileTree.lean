import DerivationBelief.ArrivalOrder

/-!
# Trees of files

A tree of directories and text files.  A path names an entry by the directories on the way to it;
empty names and single dots stay where they are, two dots go up.  Writing to a file fails when the
directory on the way is missing or is a file, or when a directory has the name of the file.

A tree remembers what has been written.  What stands at a place is the latest entry there, and the
earlier ones are the texts that it has replaced.

A directory is created together with the directories above it.  Single dots do not count among
these, so a dot behind a directory that does not exist is not found: the directories above that one
are created, and then the attempt fails.
-/

namespace DerivationBelief

inductive FileEntry where
  | directory
  | file (text : String)
deriving DecidableEq, Repr

/-- The entries in the order in which they were written, the latest first. -/
structure FileTree where
  entries : List (List String × FileEntry)
deriving Repr

/-- The path of an entry below a directory.  An absolute name is a path of its own. -/
def joinPath (directory name : String) : String :=
  if name.startsWith "/" || directory.isEmpty then name
  else if directory.endsWith "/" then directory ++ name
  else directory ++ "/" ++ name

namespace FileTree

def empty : FileTree := ⟨[]⟩

def lookup? (tree : FileTree) (place : List String) : Option FileEntry :=
  if place.isEmpty then some .directory else Arrival.get? tree.entries place

def put (tree : FileTree) (place : List String) (entry : FileEntry) : FileTree :=
  ⟨(place, entry) :: tree.entries⟩

def isDirectory (tree : FileTree) (place : List String) : Bool :=
  tree.lookup? place = some .directory

def isName (name : String) : Bool :=
  name.utf8ByteSize ≤ 255

def isPath (path : String) : Bool :=
  path.utf8ByteSize ≤ 4095 && !path.toList.contains (Char.ofNat 0)

inductive Obstacle where
  /-- A directory on the way does not exist. -/
  | missing
  /-- Something else stands in the way. -/
  | barred
deriving DecidableEq, Repr

def walk (tree : FileTree) : List String → List String → Except Obstacle (List String)
  | place, [] => .ok place
  | place, name :: rest =>
      match tree.lookup? place with
      | none => .error .missing
      | some (.file _) => .error .barred
      | some .directory =>
          if name = "" ∨ name = "." then tree.walk place rest
          else if name = ".." then tree.walk place.dropLast rest
          else if isName name then tree.walk (place ++ [name]) rest
          else .error .barred

def place? (tree : FileTree) (path : String) : Option (List String) :=
  if isPath path then (tree.walk [] (path.splitOn "/")).toOption else none

def read? (tree : FileTree) (path : String) : Option String := do
  match tree.lookup? (← tree.place? path) with
  | some (.file text) => some text
  | _ => none

def exists? (tree : FileTree) (path : String) : Bool :=
  match tree.place? path with
  | some place => (tree.lookup? place).isSome
  | none => false

def write? (tree : FileTree) (path text : String) : Option FileTree := do
  let place ← tree.place? path
  if tree.isDirectory place then none
  else return tree.put place (.file text)

def tryWrite (tree : FileTree) (path text : String) : FileTree :=
  (tree.write? path text).getD tree

def namesUp (path : String) : List String :=
  ((path.splitOn "/").filter (· ≠ "")).reverse

/-- The paths to the directories above a path, the nearest first.  Dots at the end of a path do not
count. -/
def pathsAbove : List String → List (List String)
  | [] => []
  | name :: way =>
      if name = "." then pathsAbove way else way.dropWhile (· = ".") :: pathsAbove way

def leadsToDirectory (tree : FileTree) (names : List String) : Bool :=
  match tree.walk [] names.reverse with
  | .ok place => tree.isDirectory place
  | .error _ => false

def makeDirectory (tree : FileTree) : List String → Except Obstacle FileTree
  | [] => .error .barred
  | name :: way => do
      let place ← tree.walk [] way.reverse
      let next ← tree.walk place [name]
      if name = "." ∨ name = ".." ∨ (tree.lookup? next).isSome then .error .barred
      else return tree.put next .directory

/-- Create the first of some directories.  The others lie above it, the nearest first, and are
created as far as that is needed.  The tree is left as it was when the attempt ended. -/
def makeDirectories (tree : FileTree) : List (List String) → FileTree × Bool
  | [] => (tree, true)
  | names :: above =>
      match tree.makeDirectory names with
      | .ok tree => (tree, true)
      | .error .barred => (tree, tree.leadsToDirectory names)
      | .error .missing =>
          let (tree, reached) := tree.makeDirectories above
          if !reached then (tree, false)
          else
            match tree.makeDirectory names with
            | .ok tree => (tree, true)
            | .error _ => (tree, tree.leadsToDirectory names)

/-- Create the directory at a path together with its parents, and tell whether it is there. -/
def createDirectory (tree : FileTree) (path : String) : FileTree × Bool :=
  let names := namesUp path
  if isPath path then tree.makeDirectories (names :: pathsAbove names) else (tree, false)

def filesBelow (tree : FileTree) (path : String) : List (String × String) :=
  match tree.place? path with
  | none => []
  | some root =>
      (Arrival.distinct (tree.entries.map Prod.fst)).filterMap (fun place =>
        match tree.lookup? place with
        | some (.file text) =>
            if root.isPrefixOf place then
              some ("/".intercalate (place.drop root.length), text)
            else none
        | _ => none)

end FileTree

end DerivationBelief

import DerivationBelief.Proofs.ObservedNodes
import Mathlib.Tactic

/-!
# Files of different names

Whatever directories a path leads through, the entry that it leads to has the last name of the
path.  So files of different names are different files, and writing one of them leaves the others
as they are.
-/

namespace DerivationBelief

/-- A name without directories that is none of the dots, whatever stands in front of it. -/
structure FileName (name : String) : Prop where
  no_slash : '/' ∉ name.toList
  solid : ∃ c ∈ name.toList, c ≠ '.'

/-- What a name is appended to when it is joined to a directory. -/
theorem joinPath_eq_append (directory : String) :
    ∃ front, ∀ name, '/' ∉ name.toList → joinPath directory name = front ++ name := by
  have hrelative : ∀ name : String, '/' ∉ name.toList → name.startsWith "/" = false := by
    intro name hname
    rw [Bool.eq_false_iff]
    intro hstarts
    exact hname ((String.startsWith_string_iff.mp hstarts).subset (by simp))
  by_cases hempty : directory.isEmpty = true
  · refine ⟨"", ?_⟩
    intro name hname
    simp [joinPath, hempty]
  · by_cases hends : directory.endsWith "/" = true
    · refine ⟨directory, ?_⟩
      intro name hname
      simp only [joinPath, hrelative name hname, hempty, hends, Bool.or_self, if_true, if_false,
        Bool.false_eq_true]
    · refine ⟨directory ++ "/", ?_⟩
      intro name hname
      simp only [joinPath, hrelative name hname, hempty, hends, Bool.or_self, if_false,
        Bool.false_eq_true]

theorem joinPath_append (directory front name : String) :
    ∃ whole, joinPath directory (front ++ name) = whole ++ name := by
  unfold joinPath
  split_ifs
  · exact ⟨front, rfl⟩
  · exact ⟨directory ++ front, (String.append_assoc ..).symm⟩
  · exact ⟨directory ++ "/" ++ front, (String.append_assoc ..).symm⟩

namespace FileTree

variable {tree : FileTree} {path other name label : String}

/-! ## The last name -/

theorem walk_append (tree : FileTree) (place : List String) (names more : List String) :
    tree.walk place (names ++ more) =
      tree.walk place names >>= fun reached => tree.walk reached more := by
  induction names generalizing place with
  | nil => rfl
  | cons name names ih =>
      simp only [List.cons_append, walk]
      split
      · rfl
      · rfl
      · split_ifs
        · exact ih place
        · exact ih place.dropLast
        · exact ih (place ++ [name])
        · rfl

/-- The path leads to an entry of the name, if it leads anywhere. -/
structure LeadsTo (path name : String) : Prop where
  last : (path.splitOn "/").getLast? = some name
  moves : ¬ (name = "" ∨ name = ".")
  not_up : name ≠ ".."

theorem LeadsTo.place? (hpath : LeadsTo path name) {place : List String}
    (hplace : tree.place? path = some place) : place.getLast? = some name := by
  obtain ⟨names, hnames⟩ := List.getLast?_eq_some_iff.mp hpath.last
  unfold FileTree.place? at hplace
  split at hplace
  · cases hwalk : tree.walk [] (path.splitOn "/") with
    | error obstacle => simp [hwalk, Except.toOption] at hplace
    | ok reached =>
        rw [hwalk] at hplace
        cases hplace
        rw [hnames, walk_append] at hwalk
        obtain ⟨before, _, hlast⟩ := bind_eq_ok_iff.mp hwalk
        simp only [walk, if_neg hpath.moves, if_neg hpath.not_up] at hlast
        split at hlast
        · cases hlast
        · cases hlast
        · split at hlast
          · cases hlast
            exact List.getLast?_concat
          · cases hlast
  · cases hplace

/-- Only what stands behind the last slash gets in front of a name without slashes. -/
theorem splitOn_append (front : List Char) :
    ∃ names last, ∀ name, '/' ∉ name →
      (front ++ name).splitOn '/' = names ++ [last ++ name] := by
  induction front with
  | nil => exact ⟨[], [], fun name hname => List.splitOn_eq_singleton hname⟩
  | cons c front ih =>
      obtain ⟨names, last, hsplit⟩ := ih
      by_cases hc : (c == '/') = true
      · refine ⟨[] :: names, last, ?_⟩
        intro name hname
        rw [List.cons_append, List.splitOn_cons_eq_if_modifyHead, if_pos hc, hsplit name hname]
        rfl
      · cases names with
        | nil =>
            refine ⟨[], c :: last, ?_⟩
            intro name hname
            rw [List.cons_append, List.splitOn_cons_eq_if_modifyHead, if_neg hc,
              hsplit name hname]
            rfl
        | cons first names =>
            refine ⟨(c :: first) :: names, last, ?_⟩
            intro name hname
            rw [List.cons_append, List.splitOn_cons_eq_if_modifyHead, if_neg hc,
              hsplit name hname]
            rfl

theorem leadsTo_append (front : String) :
    ∃ last : String, ∀ name, FileName name → LeadsTo (front ++ name) (last ++ name) := by
  obtain ⟨names, last, hsplit⟩ := splitOn_append front.toList
  refine ⟨String.ofList last, ?_⟩
  intro name hname
  obtain ⟨c, hc, hsolid⟩ := hname.solid
  have hmem : c ∈ (String.ofList last ++ name).toList := by simp [hc]
  constructor
  case last =>
    rw [splitOn_slash, String.toList_append, hsplit name.toList hname.no_slash, List.map_append,
      List.map_singleton, List.getLast?_concat, String.ofList_append, String.ofList_toList]
  case moves =>
    rintro (hnone | hdot)
    · simp [hnone] at hmem
    · rw [hdot] at hmem
      exact hsolid (by simpa using hmem)
  case not_up =>
    intro hdots
    rw [hdots] at hmem
    exact hsolid (by simpa using hmem)

/-! ## Writing elsewhere -/

/-- What is known of a file after others have been written: it can still be written, it holds what
it held, and nothing has been written to it. -/
structure Keeps (tree next : FileTree) (path : String) : Prop where
  takes : tree.Takes path → next.Takes path
  read : next.read? path = tree.read? path
  written : next.writings path = tree.writings path

theorem Keeps.refl (tree : FileTree) (path : String) : tree.Keeps tree path :=
  ⟨id, rfl, rfl⟩

theorem Keeps.trans {middle next : FileTree} (hfirst : tree.Keeps middle path)
    (hsecond : middle.Keeps next path) : tree.Keeps next path :=
  ⟨fun htakes => hsecond.takes (hfirst.takes htakes), hsecond.read.trans hfirst.read,
    hsecond.written.trans hfirst.written⟩

/-- Writing to one path keeps the file at a path that leads to another name. -/
theorem LeadsTo.keeps_write? (hpath : LeadsTo path name) (hother : LeadsTo other label)
    (hne : name ≠ label) {text : String} {next : FileTree}
    (hwrite : tree.write? other text = some next) : tree.Keeps next path := by
  obtain ⟨place, hplace, hfree, rfl⟩ := write?_eq_some hwrite
  have hstill := place?_put hfree text path
  have hapart : ∀ reached, tree.place? path = some reached → place ≠ reached := by
    rintro reached hreached rfl
    have hsame := (hpath.place? hreached).symm.trans (hother.place? hplace)
    exact hne (Option.some.inj hsame)
  have hlookup : ∀ reached, tree.place? path = some reached →
      (tree.put place (.file text)).lookup? reached = tree.lookup? reached :=
    fun reached hreached => lookup?_put tree place reached _ (hapart reached hreached)
  constructor
  case takes =>
    rintro ⟨reached, hreached, hfile⟩
    refine ⟨reached, hstill.trans hreached, ?_⟩
    unfold isDirectory at hfile ⊢
    rwa [hlookup reached hreached]
  case read =>
    unfold read?
    rw [hstill]
    cases hreached : tree.place? path with
    | none => rfl
    | some reached => simp only [Option.bind_eq_bind, Option.bind_some, hlookup reached hreached]
  case written =>
    unfold writings
    rw [hstill]
    cases hreached : tree.place? path with
    | none => rfl
    | some reached => exact textsAt_put (hapart reached hreached) tree text

theorem LeadsTo.keeps_tryWrite (hpath : LeadsTo path name) (hother : LeadsTo other label)
    (hne : name ≠ label) (tree : FileTree) (text : String) :
    tree.Keeps (tree.tryWrite other text) path := by
  unfold tryWrite
  cases hwrite : tree.write? other text with
  | none => exact Keeps.refl tree path
  | some next => exact hpath.keeps_write? hother hne hwrite

/-- A file that can be written holds what is written, and no file becomes unwritable by that. -/
theorem Takes.tryWrite (htakes : tree.Takes path) (text : String) :
    (tree.tryWrite path text).read? path = some text ∧
      (tree.tryWrite path text).writings path = text :: tree.writings path ∧
      ∀ second, tree.Takes second → (tree.tryWrite path text).Takes second := by
  obtain ⟨next, hwrite, hkept⟩ := htakes.write? text
  unfold FileTree.tryWrite
  rw [hwrite]
  exact ⟨read?_of_write? hwrite, writings_of_write? hwrite, hkept⟩

end FileTree

end DerivationBelief

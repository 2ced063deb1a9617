import DerivationBelief.FileTree
import DerivationBelief.Proofs.ArrivalOrder
import Mathlib.Data.String.Basic
import Mathlib.Tactic

/-!
# Reading back what was written

Writing a file changes one place of the tree, which is no directory before or afterwards.  The way
to the file leads over directories only, so the same path still leads there, and reading gives the
written text.  What has been written there before is remembered.
-/

namespace DerivationBelief.FileTree

variable {tree : FileTree}

theorem lookup?_put (tree : FileTree) (written other : List String) (entry : FileEntry)
    (hne : written ≠ other) : (tree.put written entry).lookup? other = tree.lookup? other := by
  unfold lookup?
  by_cases hempty : other.isEmpty
  · simp [hempty]
  · simp [hempty, put, Arrival.get?, hne]

theorem ne_nil_of_free {place : List String} (hfree : tree.isDirectory place = false) :
    place ≠ [] := by
  intro hempty
  simp [isDirectory, lookup?, hempty] at hfree

theorem lookup?_put_self {place : List String} (hfree : tree.isDirectory place = false)
    (entry : FileEntry) : (tree.put place entry).lookup? place = some entry := by
  simp [lookup?, ne_nil_of_free hfree, put, Arrival.get?]

/-- A walk passes directories only, and a file that is written is none of these before or after. -/
theorem walk_put {written : List String} (hfree : tree.isDirectory written = false)
    (text : String) (place : List String) (names : List String) :
    ((tree.put written (.file text)).walk place names).toOption =
      (tree.walk place names).toOption := by
  induction names generalizing place with
  | nil => rfl
  | cons name names ih =>
      simp only [walk]
      by_cases hplace : written = place
      · subst hplace
        rw [lookup?_put_self hfree]
        cases hlookup : tree.lookup? written with
        | none => rfl
        | some found =>
            cases found with
            | file old => rfl
            | directory => simp [isDirectory, hlookup] at hfree
      · rw [lookup?_put tree written place _ hplace]
        split
        · rfl
        · rfl
        · split_ifs
          · exact ih place
          · exact ih place.dropLast
          · exact ih (place ++ [name])
          · rfl

/-- Writing to a place that is no directory leaves every path where it led. -/
theorem place?_put {written : List String} (hfree : tree.isDirectory written = false)
    (text path : String) : (tree.put written (.file text)).place? path = tree.place? path := by
  unfold place?
  rw [walk_put hfree]

/-- What writing does: the place that the path leads to becomes a file. -/
theorem write?_eq_some {path text : String} {next : FileTree}
    (hwrite : tree.write? path text = some next) :
    ∃ place, tree.place? path = some place ∧ tree.isDirectory place = false ∧
      next = tree.put place (.file text) := by
  unfold write? at hwrite
  obtain ⟨place, hplace, hwrite⟩ := Option.bind_eq_some_iff.mp hwrite
  split at hwrite
  · cases hwrite
  next hfree =>
    cases hwrite
    exact ⟨place, hplace, by simpa using hfree, rfl⟩

theorem read?_of_lookup? {path text : String} {place : List String}
    (hplace : tree.place? path = some place) (hlookup : tree.lookup? place = some (.file text)) :
    tree.read? path = some text := by
  unfold read?
  rw [hplace]
  simp [hlookup]

theorem exists?_of_read? {path text : String} (hread : tree.read? path = some text) :
    tree.exists? path = true := by
  obtain ⟨place, hplace, hread⟩ := Option.bind_eq_some_iff.mp hread
  unfold exists?
  rw [hplace]
  dsimp only at hread ⊢
  split at hread
  next hlookup => rw [hlookup, Option.isSome_some]
  next => cases hread

/-- A file that has been written holds its text. -/
theorem read?_of_write? {path text : String} {next : FileTree}
    (hwrite : tree.write? path text = some next) : next.read? path = some text := by
  obtain ⟨place, hplace, hfree, rfl⟩ := write?_eq_some hwrite
  exact read?_of_lookup? ((place?_put hfree text path).trans hplace) (lookup?_put_self hfree _)

/-! ## What has been written -/

def textsAt (tree : FileTree) (place : List String) : List String :=
  tree.entries.filterMap (fun item =>
    match item with
    | (written, .file text) => if written = place then some text else none
    | (_, .directory) => none)

/-- The texts that have been written to a path, the latest first. -/
def writings (tree : FileTree) (path : String) : List String :=
  (tree.place? path).elim [] tree.textsAt

theorem textsAt_put_self (tree : FileTree) (place : List String) (text : String) :
    (tree.put place (.file text)).textsAt place = text :: tree.textsAt place := by
  simp [textsAt, put]

theorem textsAt_put {written other : List String} (hne : written ≠ other) (tree : FileTree)
    (text : String) : (tree.put written (.file text)).textsAt other = tree.textsAt other := by
  simp [textsAt, put, hne]

/-- Every writing is remembered. -/
theorem writings_of_write? {path text : String} {next : FileTree}
    (hwrite : tree.write? path text = some next) :
    next.writings path = text :: tree.writings path := by
  obtain ⟨place, hplace, hfree, rfl⟩ := write?_eq_some hwrite
  unfold writings
  rw [place?_put hfree, hplace]
  exact textsAt_put_self tree place text

/-! ## Two files

Where a path leads does not depend on the tree, as long as it leads anywhere.  So when two files are
written one after the other, what they hold depends on the paths and texts alone, even if the second
file should take the place of the first.
-/

theorem walk_unique {other : FileTree} {place last reached : List String} {names : List String}
    (hlast : tree.walk place names = .ok last) (hreached : other.walk place names = .ok reached) :
    last = reached := by
  induction names generalizing place with
  | nil =>
      simp only [walk, Except.ok.injEq] at hlast hreached
      exact hlast.symm.trans hreached
  | cons name names ih =>
      unfold walk at hlast hreached
      -- Both walks pass a directory here, and the name alone decides where they go on.
      split at hlast <;> try cases hlast
      split at hreached <;> try cases hreached
      by_cases hstay : name = "" ∨ name = "."
      · rw [if_pos hstay] at hlast hreached
        exact ih hlast hreached
      · rw [if_neg hstay] at hlast hreached
        by_cases hup : name = ".."
        · rw [if_pos hup] at hlast hreached
          exact ih hlast hreached
        · rw [if_neg hup] at hlast hreached
          by_cases hname : isName name = true
          · rw [if_pos hname] at hlast hreached
            exact ih hlast hreached
          · rw [if_neg hname] at hlast
            cases hlast

theorem place?_unique {other : FileTree} {path : String} {place reached : List String}
    (hplace : tree.place? path = some place) (hreached : other.place? path = some reached) :
    place = reached := by
  unfold place? at hplace hreached
  by_cases hpath : isPath path = true
  · rw [if_pos hpath] at hplace hreached
    cases hwalk : tree.walk [] (path.splitOn "/") with
    | error obstacle => simp [hwalk, Except.toOption] at hplace
    | ok last =>
        cases hagain : other.walk [] (path.splitOn "/") with
        | error obstacle => simp [hagain, Except.toOption] at hreached
        | ok found =>
            rw [hwalk] at hplace
            rw [hagain] at hreached
            cases hplace
            cases hreached
            exact walk_unique hwalk hagain
  · rw [if_neg hpath] at hplace
    cases hplace

/-- What the first of two files holds after the second has been written. -/
theorem read?_first {path second text textSecond : String} {middle next : FileTree}
    (hfirst : tree.write? path text = some middle)
    (hsecond : middle.write? second textSecond = some next) :
    ∃ place reached, tree.place? path = some place ∧ middle.place? second = some reached ∧
      next.read? path = some (if reached = place then textSecond else text) := by
  obtain ⟨place, hplace, hfree, rfl⟩ := write?_eq_some hfirst
  obtain ⟨reached, hreached, hfreeSecond, rfl⟩ := write?_eq_some hsecond
  refine ⟨place, reached, hplace, hreached, ?_⟩
  have hstill := (place?_put hfreeSecond textSecond path).trans
    ((place?_put hfree text path).trans hplace)
  apply read?_of_lookup? hstill
  by_cases hsame : reached = place
  · subst hsame
    rw [lookup?_put_self hfreeSecond, if_pos rfl]
  · rw [lookup?_put _ _ _ _ hsame, lookup?_put_self hfree, if_neg hsame]

/-- Two files that are written in any trees hold the same afterwards. -/
theorem read?_of_writes {other middle otherMiddle next otherNext : FileTree}
    {path second text textSecond : String}
    (hfirst : tree.write? path text = some middle)
    (hsecond : middle.write? second textSecond = some next)
    (hotherFirst : other.write? path text = some otherMiddle)
    (hotherSecond : otherMiddle.write? second textSecond = some otherNext) :
    next.read? path = otherNext.read? path ∧ next.read? second = otherNext.read? second := by
  constructor
  · obtain ⟨place, reached, hplace, hreached, hread⟩ := read?_first hfirst hsecond
    obtain ⟨otherPlace, otherReached, hotherPlace, hotherReached, hotherRead⟩ :=
      read?_first hotherFirst hotherSecond
    rw [hread, hotherRead, place?_unique hplace hotherPlace,
      place?_unique hreached hotherReached]
  · rw [read?_of_write? hsecond, read?_of_write? hotherSecond]

/-! ## The names on a path -/

section Names

open String

/-- Behind what has been passed, the name that has begun goes on until the next slash. -/
theorem splitOnAux_slash (passed name rest : List Char) (found : List String) :
    (String.ofList (passed ++ name ++ rest)).splitOnAux "/" ⟨utf8Len passed⟩
        ⟨utf8Len passed + utf8Len name⟩ 0 found =
      found.reverse ++
        (List.splitOnPPrepend (· == '/') rest name.reverse).map String.ofList := by
  induction rest generalizing passed name found with
  | nil =>
      have hlast := extract_of_valid passed name []
      have hend := (atEnd_of_valid (passed ++ name) []).mpr rfl
      rw [utf8Len_append] at hend
      rw [String.splitOnAux, if_pos hend]
      simpa using hlast
  | cons c rest ih =>
      have hend : ¬ Pos.Raw.atEnd (String.ofList (passed ++ name ++ c :: rest))
          ⟨utf8Len passed + utf8Len name⟩ = true := by
        rw [← utf8Len_append, atEnd_of_valid]
        exact List.cons_ne_nil c rest
      have hget := get_of_valid (passed ++ name) (c :: rest)
      have hnext := next_of_valid (passed ++ name) c rest
      rw [utf8Len_append] at hget hnext
      rw [String.splitOnAux, if_neg hend, hget, show Pos.Raw.get "/" 0 = '/' from rfl,
        List.headD_cons, List.splitOnPPrepend_cons_eq_if]
      by_cases hc : (c == '/') = true
      · -- The name ends here, and the next one starts behind the slash.
        have hsize : Pos.Raw.next "/" 0 = ⟨c.utf8Size⟩ := by
          rw [eq_of_beq hc]
          rfl
        have hback : Pos.Raw.unoffsetBy ⟨utf8Len passed + utf8Len name + c.utf8Size⟩
            ⟨c.utf8Size⟩ = ⟨utf8Len passed + utf8Len name⟩ := by
          simp [Pos.Raw.unoffsetBy]
        have hrest := ih (passed ++ name ++ [c]) [] (String.ofList name :: found)
        rw [if_pos hc, if_pos hc, hnext]
        dsimp only
        rw [hsize, hback, extract_of_valid, if_pos (by rw [← hsize]; rfl)]
        simpa [Nat.add_assoc] using hrest
      · have hstay : Pos.Raw.unoffsetBy ⟨utf8Len passed + utf8Len name⟩ 0 =
            ⟨utf8Len passed + utf8Len name⟩ := rfl
        have hrest := ih passed (name ++ [c]) found
        rw [if_neg hc, if_neg hc, hstay, hnext]
        simpa [Nat.add_assoc] using hrest

/-- The names of a path are what stands between its slashes. -/
theorem splitOn_slash (path : String) :
    path.splitOn "/" = (path.toList.splitOn '/').map String.ofList := by
  have hsplit := splitOnAux_slash [] [] path.toList []
  unfold String.splitOn
  rw [if_neg (by decide)]
  simpa [List.splitOn, ← List.splitOnP_eq_splitOnPPrepend] using hsplit

theorem splitOn_of_absent {name : String} (hname : '/' ∉ name.toList) :
    name.splitOn "/" = [name] := by
  rw [splitOn_slash, List.splitOn_eq_singleton hname, List.map_singleton, String.ofList_toList]

end Names

/-- A name that neither leads through directories nor stands for one. -/
structure PlainName (name : String) : Prop where
  path : isPath name = true
  fits : isName name = true
  no_slash : '/' ∉ name.toList
  moves : ¬ (name = "" ∨ name = ".")
  not_up : name ≠ ".."

theorem PlainName.place? {name : String} (hname : PlainName name) (tree : FileTree) :
    tree.place? name = some [name] := by
  unfold FileTree.place?
  rw [if_pos hname.path, splitOn_of_absent hname.no_slash]
  have hwalk : tree.walk [] [name] = .ok [name] := by
    simp only [walk, lookup?, List.isEmpty_nil, if_true, if_neg hname.moves, if_neg hname.not_up,
      if_pos hname.fits, List.nil_append]
  rw [hwalk]
  rfl

/-- A file with a plain name can be written where nothing has been written. -/
theorem PlainName.write?_empty {name : String} (hname : PlainName name) (text : String) :
    ∃ written, empty.write? name text = some written := by
  unfold write?
  rw [hname.place? empty]
  exact ⟨_, rfl⟩

end DerivationBelief.FileTree

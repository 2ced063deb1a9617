import DerivationBelief.ProvenanceGraph
import DerivationBelief.Proofs.PriorTransfer
import Mathlib.Tactic

/-!
# Priors under keys

The keys are numbered in order of arrival, and a table has the first distribution that was given with
each key under the number of the key.  A graph that knows all of the names asks for the distributions
in that order, and so it keeps their numbers.
-/

namespace DerivationBelief.PriorTable

variable {κ α : Type} [DecidableEq κ]

/-! ## Keys in order of arrival -/

/-- The keys of some priors in order of arrival. -/
def keysOf (priors : List (String × κ × Distribution α)) : List κ :=
  (priors.map (fun entry => entry.2.1)).eraseDups

/-- What is known when some of the priors have been assigned. -/
structure Keyed.Tracks (done : List (String × κ × Distribution α)) (s : Keyed κ α) : Prop where
  assembled : s.table.Assembled
  keys : s.keys = (keysOf done).zipIdx
  dists : s.table.dists.map some = (keysOf done).map (Arrival.get? (done.map Prod.snd))
  assignments : s.table.assignments =
    done.map (fun entry => (entry.1, (keysOf done).idxOf entry.2.1))

variable {done priors : List (String × κ × Distribution α)} {s next : Keyed κ α}

theorem Keyed.Tracks.start : Keyed.Tracks [] (⟨empty, []⟩ : Keyed κ α) where
  assembled := .empty
  keys := rfl
  dists := rfl
  assignments := rfl

theorem Keyed.Tracks.length_eq (hs : s.Tracks done) :
    s.table.dists.length = (keysOf done).length := by
  have hsame := congrArg List.length hs.dists
  rwa [List.length_map, List.length_map] at hsame

theorem mem_keysOf {key : κ} : key ∈ keysOf done ↔ ∃ entry ∈ done, entry.2.1 = key := by
  unfold keysOf
  rw [List.mem_eraseDups, List.mem_map]

theorem keysOf_concat (entry : String × κ × Distribution α) :
    keysOf (done ++ [entry]) = Arrival.insert (keysOf done) entry.2.1 := by
  unfold keysOf
  rw [List.map_append, List.map_singleton, ← Arrival.distinct_eq_eraseDups,
    Arrival.distinct_concat, Arrival.distinct_eq_eraseDups]

/-- A key that has been given keeps its first distribution. -/
theorem get?_concat_of_mem {key : κ} (hkey : key ∈ keysOf done)
    (entry : String × κ × Distribution α) :
    Arrival.get? ((done ++ [entry]).map Prod.snd) key = Arrival.get? (done.map Prod.snd) key := by
  rw [List.map_append, Arrival.get?_append]
  cases hget : Arrival.get? (done.map Prod.snd) key with
  | some d => rfl
  | none =>
      obtain ⟨given, hgiven, rfl⟩ := mem_keysOf.mp hkey
      rw [Arrival.get?_eq_none_iff, List.map_map] at hget
      exact absurd (List.mem_map_of_mem hgiven) hget

theorem assignments_concat (entry : String × κ × Distribution α) :
    (done ++ [entry]).map (fun e => (e.1, (keysOf (done ++ [entry])).idxOf e.2.1)) =
      done.map (fun e => (e.1, (keysOf done).idxOf e.2.1)) ++
        [(entry.1, (keysOf (done ++ [entry])).idxOf entry.2.1)] := by
  rw [List.map_append, List.map_singleton]
  congr 1
  apply List.map_congr_left
  intro e he
  rw [keysOf_concat, Arrival.idxOf_insert (mem_keysOf.mpr ⟨e, he, rfl⟩)]

theorem firsts_concat_of_mem {entry : String × κ × Distribution α} (hmem : entry.2.1 ∈ keysOf done) :
    (keysOf (done ++ [entry])).map (Arrival.get? ((done ++ [entry]).map Prod.snd)) =
      (keysOf done).map (Arrival.get? (done.map Prod.snd)) := by
  rw [keysOf_concat, Arrival.insert, if_pos hmem]
  exact List.map_congr_left (fun key hkey => get?_concat_of_mem hkey entry)

/-- A new key comes behind the others, with the distribution that is given with it. -/
theorem firsts_concat_of_notMem {entry : String × κ × Distribution α}
    (hmem : entry.2.1 ∉ keysOf done) :
    (keysOf (done ++ [entry])).map (Arrival.get? ((done ++ [entry]).map Prod.snd)) =
      (keysOf done).map (Arrival.get? (done.map Prod.snd)) ++ [some entry.2.2] := by
  have hfirst : Arrival.get? ((done ++ [entry]).map Prod.snd) entry.2.1 = some entry.2.2 := by
    have hnone : Arrival.get? (done.map Prod.snd) entry.2.1 = none := by
      rw [Arrival.get?_eq_none_iff, List.map_map]
      intro hold
      obtain ⟨given, hgiven, hkey⟩ := List.mem_map.mp hold
      exact hmem (mem_keysOf.mpr ⟨given, hgiven, hkey⟩)
    rw [List.map_append, Arrival.get?_append, hnone]
    simp [Arrival.get?]
  rw [keysOf_concat, Arrival.insert, if_neg hmem, List.map_append, List.map_singleton, hfirst,
    List.map_congr_left (fun key hkey => get?_concat_of_mem hkey entry)]

theorem Keyed.Tracks.assign (hs : s.Tracks done) {entry : String × κ × Distribution α}
    (hnext : s.assign entry.1 entry.2.1 entry.2.2 = .ok next) :
    next.Tracks (done ++ [entry]) := by
  have hfound : Arrival.get? s.keys entry.2.1 = if entry.2.1 ∈ keysOf done then
      some (0 + (keysOf done).idxOf entry.2.1) else none := by
    rw [hs.keys, Arrival.get?_zipIdx]
  unfold Keyed.assign at hnext
  by_cases hmem : entry.2.1 ∈ keysOf done
  · have hsame : keysOf (done ++ [entry]) = keysOf done := by
      rw [keysOf_concat, Arrival.insert, if_pos hmem]
    rw [hfound, if_pos hmem] at hnext
    obtain ⟨table, htie, hnext⟩ := bind_eq_ok_iff.mp hnext
    cases hnext
    have hassembled := Assembled.tie _ _ hs.assembled htie
    obtain ⟨_, rfl⟩ := tie_eq_ok_iff.mp htie
    constructor
    case assembled => exact hassembled
    case keys =>
      rw [hsame]
      exact hs.keys
    case dists => exact hs.dists.trans (firsts_concat_of_mem hmem).symm
    case assignments =>
      rw [assignments_concat, hsame, ← hs.assignments, Nat.zero_add]
  · have hnew : keysOf (done ++ [entry]) = keysOf done ++ [entry.2.1] := by
      rw [keysOf_concat, Arrival.insert, if_neg hmem]
    have hplace : (keysOf (done ++ [entry])).idxOf entry.2.1 = s.table.dists.length := by
      rw [hnew, List.idxOf_append_of_notMem hmem, List.idxOf_cons_self, hs.length_eq]
      rfl
    rw [hfound, if_neg hmem] at hnext
    cases hnext
    constructor
    case assembled => exact hs.assembled.add entry.1 entry.2.2
    case keys =>
      have hput := Arrival.put_zipIdx hmem 0
      rw [Nat.zero_add, ← hs.keys, ← hs.length_eq] at hput
      rw [hnew]
      exact hput
    case dists =>
      rw [firsts_concat_of_notMem hmem, ← hs.dists]
      exact List.map_append
    case assignments =>
      rw [assignments_concat, hplace, ← hs.assignments]

theorem ofKeyed_tracks {table : PriorTable α} (htable : ofKeyed priors = .ok table) :
    ∃ s : Keyed κ α, s.table = table ∧ s.Tracks priors := by
  have hrun : ∀ (rest done : List (String × κ × Distribution α)) (s last : Keyed κ α),
      s.Tracks done →
      rest.foldlM (fun (s : Keyed κ α) entry => s.assign entry.1 entry.2.1 entry.2.2) s =
        .ok last → last.Tracks (done ++ rest) := by
    intro rest
    induction rest with
    | nil =>
        intro done s last hs hlast
        cases hlast
        rwa [List.append_nil]
    | cons entry rest ih =>
        intro done s last hs hlast
        obtain ⟨next, hnext, hrest⟩ := foldlM_cons_eq_ok_iff.mp hlast
        have hall := ih _ next last (hs.assign hnext) hrest
        rwa [List.append_assoc] at hall
  obtain ⟨last, hlast, hlastTable⟩ := bind_eq_ok_iff.mp htable
  cases hlastTable
  exact ⟨last, rfl, hrun priors [] _ last Keyed.Tracks.start hlast⟩

theorem Keyed.Tracks.names_eq (hs : s.Tracks done) : s.table.names = done.map Prod.fst := by
  unfold names
  rw [hs.assignments, List.map_map]
  rfl

/-! ## Graphs that know all names -/

section Known

variable {g : CausalGraph α} (hs : s.Tracks priors) (hknown : ∀ entry ∈ priors, entry.1 ∈ g.nodes)

include hs hknown

theorem Keyed.Tracks.requested_eq :
    g.requested s.table.assignments = List.range (keysOf priors).length := by
  have hall : s.table.assignments.filter (fun entry => entry.1 ∈ g.nodes) =
      s.table.assignments := by
    rw [List.filter_eq_self, hs.assignments, List.forall_mem_map]
    exact fun entry hentry => decide_eq_true (hknown entry hentry)
  have hnumbers : s.table.assignments.map Prod.snd =
      (priors.map (fun entry => entry.2.1)).map (keysOf priors).idxOf := by
    rw [hs.assignments, List.map_map, List.map_map]
    rfl
  unfold CausalGraph.requested
  rw [hall, hnumbers]
  exact Arrival.eraseDups_map_idxOf _

/-- All distributions enter the graph, under the numbers that they have in the table. -/
theorem Keyed.Tracks.dists_eq (hplain : g.dists = []) :
    (g.applyPriors s.table).dists = s.table.dists := by
  obtain ⟨applied, hgraph, happlied⟩ := g.applyPriors_tracks hs.assembled.wellFormed
  obtain ⟨fresh, hdists, hfresh⟩ := happlied.dists
  rw [hgraph, hplain, List.nil_append] at hdists
  rw [hs.requested_eq hknown, ← hs.length_eq] at hfresh
  rw [hdists]
  apply List.map_injective_iff.mpr (Option.some_injective _)
  rw [hfresh]
  apply List.ext_getElem?
  intro number
  rw [List.getElem?_map, List.getElem?_map]
  by_cases hnumber : number < s.table.dists.length
  · rw [List.getElem?_eq_getElem hnumber, List.getElem?_range hnumber, Option.map_some,
      Option.map_some, List.getElem?_eq_getElem hnumber]
  · have hrange : (List.range s.table.dists.length)[number]? = none :=
      List.getElem?_eq_none (by rw [List.length_range]; exact Nat.le_of_not_lt hnumber)
    rw [hrange, List.getElem?_eq_none (Nat.le_of_not_lt hnumber)]
    rfl

theorem Keyed.Tracks.distOf?_eq (hplain : g.dists = []) (hnames : (priors.map Prod.fst).Nodup)
    {entry : String × κ × Distribution α} (hentry : entry ∈ priors) {id : Nat}
    (hid : g.nodeId? entry.1 = some id) :
    (g.applyPriors s.table).distOf? id = some ((keysOf priors).idxOf entry.2.1) := by
  have hmem : entry.1 ∈ s.table.names := by
    rw [hs.names_eq]
    exact List.mem_map_of_mem hentry
  obtain ⟨number, hnumber, hassigned⟩ := CausalGraph.lastAssigned?_of_mem_names hmem
  have hplace : number = (keysOf priors).idxOf entry.2.1 := by
    rw [hs.assignments] at hassigned
    obtain ⟨other, hother, hsame⟩ := List.mem_map.mp hassigned
    obtain ⟨hname, rfl⟩ := Prod.mk.inj hsame
    rw [List.inj_on_of_nodup_map hnames hother hentry hname]
  have hlt : number < (List.range (keysOf priors).length).length := by
    rw [List.length_range, hplace]
    exact List.idxOf_lt_length_of_mem (mem_keysOf.mpr ⟨entry, hentry, rfl⟩)
  have hrange : (List.range (keysOf priors).length).idxOf number = number := by
    have hat := List.nodup_range.idxOf_getElem number hlt
    rwa [List.getElem_range] at hat
  obtain ⟨applied, hgraph, happlied⟩ := g.applyPriors_tracks hs.assembled.wellFormed
  have hdist := happlied.assigned entry.1 id hid
  rw [hgraph, show (Arrival.valuesOf s.table.assignments entry.1).getLast? = some number
    from hnumber] at hdist
  rw [hdist, ← hplace, Option.map_some, CausalGraph.numberIn, hs.requested_eq hknown, hrange,
    CausalGraph.distCount, hplain]
  exact congrArg some (Nat.zero_add number)

end Known

/-! ## Keys that are all different -/

theorem ofIndependent_eq (given : List (String × Distribution α)) :
    ofIndependent given =
      ⟨given.map Prod.snd, given.zipIdx.map (fun entry => (entry.1.1, entry.2))⟩ := by
  induction given using List.reverseRecOn with
  | nil => rfl
  | append_singleton given entry ih =>
      unfold ofIndependent at ih ⊢
      rw [List.foldl_append, ih, List.zipIdx_append]
      simp [add]

/-- Priors with different keys make the table of the same priors without keys. -/
theorem ofKeyed_of_nodup (hkeys : (priors.map (fun entry => entry.2.1)).Nodup) :
    ofKeyed priors = .ok (ofIndependent (priors.map (fun entry => (entry.1, entry.2.2)))) := by
  obtain ⟨table, htable, _⟩ := ofKeyed_spec priors
  obtain ⟨s, rfl, hs⟩ := ofKeyed_tracks htable
  have hsame : keysOf priors = priors.map (fun entry => entry.2.1) := by
    unfold keysOf
    rw [← Arrival.distinct_eq_eraseDups, Arrival.distinct_of_nodup hkeys]
  have hvalues : ((priors.map Prod.snd).map Prod.fst).Nodup := by
    rwa [List.map_map]
  have hdists : s.table.dists = priors.map (fun entry => entry.2.2) := by
    apply List.map_injective_iff.mpr (Option.some_injective _)
    rw [hs.dists, hsame, List.map_map, List.map_map]
    apply List.map_congr_left
    intro entry hentry
    exact (Arrival.get?_eq_some_iff hvalues).mpr (List.mem_map_of_mem hentry)
  have hassignments : s.table.assignments =
      (priors.map (fun entry => (entry.1, entry.2.2))).zipIdx.map
        (fun entry => (entry.1.1, entry.2)) := by
    rw [hs.assignments, hsame]
    apply List.ext_getElem
    · simp
    · intro k hk _
      rw [List.length_map] at hk
      have hplace := hkeys.idxOf_getElem k (by rwa [List.length_map])
      rw [List.getElem_map] at hplace
      simp [hplace]
  rw [htable, ofIndependent_eq, ← hassignments, List.map_map]
  congr 1
  exact congrArg (fun dists => PriorTable.mk dists s.table.assignments) hdists

end DerivationBelief.PriorTable

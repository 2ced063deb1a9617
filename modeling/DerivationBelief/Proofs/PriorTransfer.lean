import DerivationBelief.Proofs.ArrivalLookups
import DerivationBelief.Proofs.PriorTable
import Mathlib.Tactic

/-!
# How priors enter a graph

A table is applied entry by entry.  A distribution of the table enters the graph when the first node
of the graph is assigned it, behind the distributions that are there already, and keeps its place
from then on.  So the distributions that no node of the graph is assigned are left out, the others
come in the order of their first assignments, and a node refers to the last one that it was assigned.
-/

namespace DerivationBelief

variable {α : Type}

namespace PriorTable

variable {table : PriorTable α}

/-- Tables that are made by adding and tying. -/
inductive Assembled : PriorTable α → Prop
  | empty : Assembled empty
  | add {table : PriorTable α} (node : String) (d : Distribution α) : Assembled table →
      Assembled (table.add node d).1
  | tie {table next : PriorTable α} (node : String) (number : Nat) : Assembled table →
      table.tie node number = .ok next → Assembled next

theorem tie_eq_ok_iff {next : PriorTable α} {node : String} {number : Nat} :
    table.tie node number = .ok next ↔ number < table.dists.length ∧
      next = ⟨table.dists, table.assignments ++ [(node, number)]⟩ := by
  unfold tie
  split
  next hle => simp [Nat.not_lt_of_le hle]
  next hlt => simp [Nat.lt_of_not_le hlt, eq_comm]

theorem Assembled.wellFormed (htable : table.Assembled) : table.WellFormed := by
  induction htable with
  | empty => exact empty_wellFormed
  | add node d _ ih => exact ih.add node d
  | tie node number _ hnext ih =>
      obtain ⟨hlt, rfl⟩ := tie_eq_ok_iff.mp hnext
      intro entry hentry
      rcases List.mem_append.mp hentry with hold | hnew
      · exact ih entry hold
      · rw [List.mem_singleton.mp hnew]
        exact hlt

/-- The number of the distribution that a node was assigned last. -/
def lastAssigned? (table : PriorTable α) (node : String) : Option Nat :=
  (Arrival.valuesOf table.assignments node).getLast?

end PriorTable

namespace CausalGraph

variable {g : CausalGraph α} {dists : List (Distribution α)} {done : List (String × Nat)}
  {entry : String × Nat}

theorem nodeId?_eq_some_iff {node : String} {id : Nat} :
    g.nodeId? node = some id ↔ node ∈ g.nodes ∧ id = g.nodes.idxOf node :=
  Arrival.position?_eq_some_iff

theorem nodeId?_injective {node other : String} {id : Nat} (hnode : g.nodeId? node = some id)
    (hother : g.nodeId? other = some id) : node = other := by
  obtain ⟨hmem, rfl⟩ := nodeId?_eq_some_iff.mp hnode
  exact (List.idxOf_inj hmem).mp (nodeId?_eq_some_iff.mp hother).2

/-! ## What the nodes of a graph ask for -/

/-- The distributions that nodes of the graph are assigned, in the order of their first such
assignments. -/
def requested (g : CausalGraph α) (assignments : List (String × Nat)) : List Nat :=
  ((assignments.filter (fun entry => entry.1 ∈ g.nodes)).map Prod.snd).eraseDups

/-- The number in the graph of a distribution that is asked for. -/
def numberIn (g : CausalGraph α) (assignments : List (String × Nat)) (number : Nat) : Nat :=
  g.distCount + (g.requested assignments).idxOf number

theorem mem_requested {number : Nat} :
    number ∈ g.requested done ↔ ∃ node ∈ g.nodes, (node, number) ∈ done := by
  unfold requested
  rw [List.mem_eraseDups, List.mem_map]
  constructor
  · rintro ⟨⟨node, _⟩, hentry, rfl⟩
    obtain ⟨hmem, hnode⟩ := List.mem_filter.mp hentry
    exact ⟨node, of_decide_eq_true hnode, hmem⟩
  · rintro ⟨node, hnode, hmem⟩
    exact ⟨(node, number), List.mem_filter.mpr ⟨hmem, decide_eq_true hnode⟩, rfl⟩

theorem requested_concat_of_unknown (hentry : entry.1 ∉ g.nodes) :
    g.requested (done ++ [entry]) = g.requested done := by
  unfold requested
  rw [List.filter_append, List.filter_singleton, decide_eq_false hentry]
  simp

theorem requested_concat_of_known (hentry : entry.1 ∈ g.nodes) :
    g.requested (done ++ [entry]) = Arrival.insert (g.requested done) entry.2 := by
  unfold requested
  rw [List.filter_append, List.filter_singleton, decide_eq_true hentry, cond_true, List.map_append,
    List.map_singleton, ← Arrival.distinct_eq_eraseDups, Arrival.distinct_concat,
    Arrival.distinct_eq_eraseDups]

/-- A distribution that is asked for keeps its number when another assignment follows. -/
theorem numberIn_concat {number : Nat} (hnumber : number ∈ g.requested done)
    (entry : String × Nat) :
    g.numberIn (done ++ [entry]) number = g.numberIn done number := by
  unfold numberIn
  by_cases hentry : entry.1 ∈ g.nodes
  · rw [requested_concat_of_known hentry, Arrival.idxOf_insert hnumber]
  · rw [requested_concat_of_unknown hentry]

/-! ## One assignment -/

/-- What holds of a graph when a part of the assignments has been applied to it. -/
structure Applying.Tracks (g : CausalGraph α) (dists : List (Distribution α))
    (done : List (String × Nat)) (s : Applying α) : Prop where
  shape : s.graph.forgetPriors = g.forgetPriors
  dists : ∃ fresh, s.graph.dists = g.dists ++ fresh ∧
    fresh.map some = (g.requested done).map (fun number => dists[number]?)
  entered : s.entered = (g.requested done).zipIdx g.distCount
  assigned : ∀ node id, g.nodeId? node = some id → s.graph.distOf? id =
    ((Arrival.valuesOf done node).getLast?.map (g.numberIn done)).or (g.distOf? id)
  unassigned : ∀ id, (∀ node, g.nodeId? node ≠ some id) → s.graph.distOf? id = g.distOf? id

namespace Applying

variable {s : Applying α}

theorem assign_of_unknown (hentry : s.graph.nodeId? entry.1 = none) : s.assign dists entry = s := by
  unfold assign
  rw [hentry]

theorem Tracks.start (g : CausalGraph α) (dists : List (Distribution α)) :
    Tracks g dists [] ⟨g, []⟩ where
  shape := rfl
  dists := ⟨[], (List.append_nil _).symm, rfl⟩
  entered := rfl
  assigned := fun _ _ _ => rfl
  unassigned := fun _ _ => rfl

theorem Tracks.nodes_eq (hs : s.Tracks g dists done) : s.graph.nodes = g.nodes := by
  have hsame := congrArg CausalGraph.nodes hs.shape
  exact hsame

theorem Tracks.nodeId?_eq (hs : s.Tracks g dists done) (node : String) :
    s.graph.nodeId? node = g.nodeId? node :=
  congrArg (fun nodes => nodeIn? nodes node) hs.nodes_eq

theorem Tracks.distCount_eq (hs : s.Tracks g dists done) :
    s.graph.distCount = g.distCount + (g.requested done).length := by
  obtain ⟨fresh, hdists, hfresh⟩ := hs.dists
  have hlength : fresh.length = (g.requested done).length := by
    have hsame := congrArg List.length hfresh
    rwa [List.length_map, List.length_map] at hsame
  unfold distCount
  rw [hdists, List.length_append, hlength]

/-- A node that is assigned a distribution refers to it from then on. -/
theorem Tracks.put {next : Applying α} {node : Nat} (hs : s.Tracks g dists done)
    (hnode : g.nodeId? entry.1 = some node)
    (hput : next.graph.stochastic =
      Arrival.put s.graph.stochastic node (g.numberIn (done ++ [entry]) entry.2)) :
    (∀ other id, g.nodeId? other = some id → next.graph.distOf? id =
      ((Arrival.valuesOf (done ++ [entry]) other).getLast?.map
        (g.numberIn (done ++ [entry]))).or (g.distOf? id)) ∧
    ∀ id, (∀ other, g.nodeId? other ≠ some id) → next.graph.distOf? id = g.distOf? id := by
  have hget : ∀ id, next.graph.distOf? id =
      if node = id then some (g.numberIn (done ++ [entry]) entry.2) else s.graph.distOf? id := by
    intro id
    unfold distOf?
    rw [hput, Arrival.get?_put]
  constructor
  · intro other id hid
    rw [hget]
    by_cases hsame : entry.1 = other
    · subst hsame
      cases hnode.symm.trans hid
      simp [Arrival.valuesOf]
    · have hne : node ≠ id := by
        rintro rfl
        exact hsame (nodeId?_injective hnode hid)
      have hvalues : Arrival.valuesOf (done ++ [entry]) other = Arrival.valuesOf done other := by
        simp [Arrival.valuesOf, hsame]
      rw [if_neg hne, hs.assigned other id hid, hvalues]
      cases hlast : (Arrival.valuesOf done other).getLast? with
      | none => rfl
      | some number =>
          have hnumber : number ∈ g.requested done := mem_requested.mpr
            ⟨other, (nodeId?_eq_some_iff.mp hid).1, Arrival.mem_of_getLast?_valuesOf hlast⟩
          rw [Option.map_some, Option.map_some, numberIn_concat hnumber]
  · intro id hid
    have hne : node ≠ id := by
      rintro rfl
      exact hid entry.1 hnode
    rw [hget, if_neg hne, hs.unassigned id hid]

/-- An assignment for a node that the graph does not have changes nothing. -/
theorem Tracks.assign_unknown (hs : s.Tracks g dists done) (hnode : g.nodeId? entry.1 = none) :
    (s.assign dists entry).Tracks g dists (done ++ [entry]) := by
  have hrequested : g.requested (done ++ [entry]) = g.requested done :=
    requested_concat_of_unknown (Arrival.position?_eq_none_iff.mp hnode)
  rw [assign_of_unknown ((hs.nodeId?_eq entry.1).trans hnode)]
  constructor
  case shape => exact hs.shape
  case dists =>
    rw [hrequested]
    exact hs.dists
  case entered =>
    rw [hrequested]
    exact hs.entered
  case assigned =>
    intro node id hid
    have hne : entry.1 ≠ node := by
      rintro rfl
      rw [hnode] at hid
      cases hid
    have hvalues : Arrival.valuesOf (done ++ [entry]) node = Arrival.valuesOf done node := by
      simp [Arrival.valuesOf, hne]
    rw [hs.assigned node id hid, hvalues]
    unfold numberIn
    rw [hrequested]
  case unassigned => exact hs.unassigned

/-- A distribution that has been asked for before is found at its place. -/
theorem Tracks.assign_again (hs : s.Tracks g dists done) {node : Nat}
    (hnode : g.nodeId? entry.1 = some node) (hmem : entry.2 ∈ g.requested done) :
    (s.assign dists entry).Tracks g dists (done ++ [entry]) := by
  have hsame : g.requested (done ++ [entry]) = g.requested done := by
    rw [requested_concat_of_known (nodeId?_eq_some_iff.mp hnode).1, Arrival.insert, if_pos hmem]
  have hfound : Arrival.get? s.entered entry.2 =
      some (g.distCount + (g.requested done).idxOf entry.2) := by
    rw [hs.entered, Arrival.get?_zipIdx, if_pos hmem]
  have hassign : s.assign dists entry = { s with graph := { s.graph with
      stochastic := Arrival.put s.graph.stochastic node
        (g.distCount + (g.requested done).idxOf entry.2) } } := by
    unfold Applying.assign
    rw [hs.nodeId?_eq, hnode]
    simp only [hfound]
  have hplaced : (s.assign dists entry).graph.stochastic =
      Arrival.put s.graph.stochastic node (g.numberIn (done ++ [entry]) entry.2) := by
    rw [hassign, numberIn, hsame]
  have hput := hs.put hnode hplaced
  refine ⟨?_, ?_, ?_, hput.1, hput.2⟩
  · rw [hassign]
    exact hs.shape
  · rw [hassign, hsame]
    exact hs.dists
  · rw [hassign, hsame]
    exact hs.entered

/-- A distribution that is asked for the first time enters behind the others. -/
theorem Tracks.assign_new (hs : s.Tracks g dists done) (hentry : entry.2 < dists.length)
    {node : Nat} (hnode : g.nodeId? entry.1 = some node) (hmem : entry.2 ∉ g.requested done) :
    (s.assign dists entry).Tracks g dists (done ++ [entry]) := by
  have hnew : g.requested (done ++ [entry]) = g.requested done ++ [entry.2] := by
    rw [requested_concat_of_known (nodeId?_eq_some_iff.mp hnode).1, Arrival.insert, if_neg hmem]
  have hfound : Arrival.get? s.entered entry.2 = none := by
    rw [hs.entered, Arrival.get?_zipIdx, if_neg hmem]
  have hplace : g.numberIn (done ++ [entry]) entry.2 = s.graph.distCount := by
    rw [hs.distCount_eq, numberIn, hnew, List.idxOf_append_of_notMem hmem,
      List.idxOf_cons_self, Nat.add_zero]
  have hassign : s.assign dists entry =
      { graph := { s.graph with
          dists := s.graph.dists ++ [dists[entry.2]]
          stochastic := Arrival.put s.graph.stochastic node s.graph.distCount }
        entered := Arrival.put s.entered entry.2 s.graph.distCount } := by
    unfold Applying.assign
    rw [hs.nodeId?_eq, hnode]
    simp only [hfound, List.getElem?_eq_getElem hentry]
  have hplaced : (s.assign dists entry).graph.stochastic =
      Arrival.put s.graph.stochastic node (g.numberIn (done ++ [entry]) entry.2) := by
    rw [hassign, hplace]
  have hput := hs.put hnode hplaced
  refine ⟨?_, ?_, ?_, hput.1, hput.2⟩
  · rw [hassign]
    exact hs.shape
  · obtain ⟨fresh, hdists, hfresh⟩ := hs.dists
    refine ⟨fresh ++ [dists[entry.2]], ?_, ?_⟩
    · rw [hassign, hdists, List.append_assoc]
    · rw [hnew, List.map_append, List.map_append, hfresh, List.map_singleton,
        List.map_singleton, List.getElem?_eq_getElem hentry]
  · rw [hassign, hnew, hs.entered, hs.distCount_eq, Arrival.put_zipIdx hmem]

theorem Tracks.assign (hs : s.Tracks g dists done) (hentry : entry.2 < dists.length) :
    (s.assign dists entry).Tracks g dists (done ++ [entry]) := by
  cases hnode : g.nodeId? entry.1 with
  | none => exact hs.assign_unknown hnode
  | some node =>
      by_cases hmem : entry.2 ∈ g.requested done
      · exact hs.assign_again hnode hmem
      · exact hs.assign_new hentry hnode hmem

theorem Tracks.run {rest : List (String × Nat)} (hs : s.Tracks g dists done)
    (hrest : ∀ entry ∈ rest, entry.2 < dists.length) :
    (rest.foldl (Applying.assign dists) s).Tracks g dists (done ++ rest) := by
  induction rest generalizing s done with
  | nil => rwa [List.append_nil]
  | cons entry rest ih =>
      rw [List.forall_mem_cons] at hrest
      have hlast := ih (hs.assign hrest.1) hrest.2
      rwa [List.append_assoc] at hlast

theorem Tracks.run_known {rest : List (String × Nat)} (hs : s.Tracks g dists done)
    (hrest : ∀ entry ∈ rest, entry.2 < dists.length) :
    (rest.filter (fun entry => entry.1 ∈ g.nodes)).foldl (Applying.assign dists) s =
      rest.foldl (Applying.assign dists) s := by
  induction rest generalizing s done with
  | nil => rfl
  | cons entry rest ih =>
      rw [List.forall_mem_cons] at hrest
      by_cases hentry : entry.1 ∈ g.nodes
      · rw [List.filter_cons_of_pos (by simpa using hentry)]
        exact ih (hs.assign hrest.1) hrest.2
      · have hnone : s.graph.nodeId? entry.1 = none := by
          rw [hs.nodeId?_eq]
          exact Arrival.position?_eq_none_iff.mpr hentry
        rw [List.filter_cons_of_neg (by simpa using hentry), List.foldl_cons,
          assign_of_unknown hnone]
        exact ih hs hrest.2

end Applying

/-! ## The whole table -/

/-- What has become of a graph to which a table was applied.  Its own distributions are in front, then
come those that its nodes are assigned.  A node that is assigned a distribution refers to a copy of
the last one, and two nodes share their copies exactly when they share the distribution.  All other
nodes refer to what they did before, and assignments to other names play no part. -/
structure PrimedBy (g : CausalGraph α) (table : PriorTable α) (next : CausalGraph α) : Prop where
  shape : next.forgetPriors = g.forgetPriors
  dists : ∃ fresh, next.dists = g.dists ++ fresh ∧
    fresh.map some = (g.requested table.assignments).map (fun number => table.dists[number]?)
  assigned : ∀ node id, g.nodeId? node = some id → node ∈ table.names → ∃ number d place,
    table.lastAssigned? node = some number ∧ table.dists[number]? = some d ∧
      next.distOf? id = some place ∧ next.dists[place]? = some d ∧
      place = g.distCount + (g.requested table.assignments).idxOf number
  shared : ∀ node id other otherId, g.nodeId? node = some id → g.nodeId? other = some otherId →
    node ∈ table.names → other ∈ table.names →
      (next.distOf? id = next.distOf? otherId ↔
        table.lastAssigned? node = table.lastAssigned? other)
  unassigned : ∀ id, (∀ node, g.nodeId? node = some id → node ∉ table.names) →
    next.distOf? id = g.distOf? id
  unknown : next = g.applyPriors
    ⟨table.dists, table.assignments.filter (fun entry => entry.1 ∈ g.nodes)⟩

variable {table : PriorTable α}

theorem lastAssigned?_of_mem_names {node : String} (hnode : node ∈ table.names) :
    ∃ number, table.lastAssigned? node = some number ∧ (node, number) ∈ table.assignments := by
  obtain ⟨⟨name, number⟩, hentry, rfl⟩ := List.mem_map.mp hnode
  have hvalue : number ∈ Arrival.valuesOf table.assignments name :=
    List.mem_map.mpr ⟨_, List.mem_filter.mpr ⟨hentry, decide_eq_true rfl⟩, rfl⟩
  have hlast := List.getLast?_eq_getLast_of_ne_nil (List.ne_nil_of_mem hvalue)
  exact ⟨_, hlast, Arrival.mem_of_getLast?_valuesOf hlast⟩

theorem lastAssigned?_eq_none {node : String} (hnode : node ∉ table.names) :
    table.lastAssigned? node = none := by
  rw [Option.eq_none_iff_forall_ne_some]
  intro number hlast
  exact hnode (List.mem_map_of_mem (f := Prod.fst) (Arrival.mem_of_getLast?_valuesOf hlast))

theorem numberIn_injective {number other : Nat} (hnumber : number ∈ g.requested done) :
    g.numberIn done number = g.numberIn done other ↔ number = other := by
  unfold numberIn
  rw [Nat.add_left_cancel_iff, List.idxOf_inj hnumber]

/-- A distribution that is asked for is found under its number. -/
theorem getElem?_numberIn {fresh : List (Distribution α)} {number : Nat}
    (hfresh : fresh.map some = (g.requested done).map (fun number => dists[number]?))
    (hnumber : number ∈ g.requested done) :
    (g.dists ++ fresh)[g.numberIn done number]? = dists[number]? := by
  have hplace := congrArg (fun found => found[(g.requested done).idxOf number]?) hfresh
  simp only [List.getElem?_map, List.getElem?_eq_getElem (List.idxOf_lt_length_of_mem hnumber),
    List.getElem_idxOf, Option.map_some] at hplace
  obtain ⟨d, hd, hsome⟩ := Option.map_eq_some_iff.mp hplace
  rw [numberIn, distCount, List.getElem?_append_right (Nat.le_add_right _ _),
    Nat.add_sub_cancel_left, hd, hsome]

theorem applyPriors_tracks (g : CausalGraph α) (htable : table.WellFormed) :
    ∃ s : Applying α, s.graph = g.applyPriors table ∧
      s.Tracks g table.dists table.assignments :=
  ⟨_, rfl, (Applying.Tracks.start g table.dists).run htable⟩

/-- A node that the table does not name keeps its prior. -/
theorem distOf?_applyPriors_of_unnamed (g : CausalGraph α) (htable : table.WellFormed) {id : Nat}
    (hnone : ∀ node, g.nodeId? node = some id → node ∉ table.names) :
    (g.applyPriors table).distOf? id = g.distOf? id := by
  obtain ⟨s, hgraph, hs⟩ := g.applyPriors_tracks htable
  rw [← hgraph]
  by_cases hknown : ∃ node, g.nodeId? node = some id
  · obtain ⟨node, hid⟩ := hknown
    have hvalues : (Arrival.valuesOf table.assignments node).getLast? = none :=
      lastAssigned?_eq_none (hnone node hid)
    rw [hs.assigned node id hid, hvalues]
    rfl
  · exact hs.unassigned id (fun node hid => hknown ⟨node, hid⟩)

/-- Whatever was added and tied, the priors of a table enter a graph without getting mixed up: its
own distributions stay, the others come in the order of their first use by a node of the graph, and
every node that is named refers to what it was given last. -/
theorem priors_enter (g : CausalGraph α) {table : PriorTable α} (htable : table.Assembled) :
    g.PrimedBy table (g.applyPriors table) := by
  have hrange := htable.wellFormed
  obtain ⟨s, hgraph, hs⟩ := g.applyPriors_tracks hrange
  obtain ⟨fresh, hdists, hfresh⟩ := hs.dists
  rw [hgraph] at hdists
  have hlast : ∀ node id, g.nodeId? node = some id → node ∈ table.names → ∃ number,
      table.lastAssigned? node = some number ∧ number ∈ g.requested table.assignments ∧
        number < table.dists.length ∧
        (g.applyPriors table).distOf? id = some (g.numberIn table.assignments number) := by
    intro node id hid hnode
    obtain ⟨number, hnumber, hmem⟩ := lastAssigned?_of_mem_names hnode
    have hrequested : number ∈ g.requested table.assignments :=
      mem_requested.mpr ⟨node, (nodeId?_eq_some_iff.mp hid).1, hmem⟩
    refine ⟨number, hnumber, hrequested, hrange _ hmem, ?_⟩
    have hdist := hs.assigned node id hid
    rw [hgraph, show (Arrival.valuesOf table.assignments node).getLast? = some number from hnumber]
      at hdist
    exact hdist
  constructor
  case shape => exact hgraph ▸ hs.shape
  case dists => exact ⟨fresh, hdists, hfresh⟩
  case assigned =>
    intro node id hid hnode
    obtain ⟨number, hnumber, hrequested, hlt, hdist⟩ := hlast node id hid hnode
    have hd := List.getElem?_eq_getElem hlt
    refine ⟨number, _, _, hnumber, hd, hdist, ?_, rfl⟩
    rw [hdists, getElem?_numberIn hfresh hrequested, hd]
  case shared =>
    intro node id other otherId hid hotherId hnode hother
    obtain ⟨number, hnumber, hrequested, _, hdist⟩ := hlast node id hid hnode
    obtain ⟨otherNumber, hotherNumber, _, _, hotherDist⟩ := hlast other otherId hotherId hother
    rw [hnumber, hotherNumber, hdist, hotherDist, Option.some_inj, Option.some_inj,
      numberIn_injective hrequested]
  case unassigned => exact fun id hnone => g.distOf?_applyPriors_of_unnamed hrange hnone
  case unknown =>
    have hstart := Applying.Tracks.start g table.dists
    exact congrArg Applying.graph (hstart.run_known hrange).symm

/-! ## A street with a ghost -/

def ghostDist : Distribution ℚ := ⟨[1 / 8], [1]⟩

def rareDist : Distribution ℚ := ⟨[1 / 4], [1]⟩

def oftenDist : Distribution ℚ := ⟨[3 / 4], [1]⟩

def cloudDist : Distribution ℚ := ⟨[1 / 2], [1]⟩

/-- The street whose clouds have a prior already. -/
def cloudyStreet : CausalGraph ℚ :=
  { name := "street"
    nodes := ["cloud", "rain", "wet", "slip"]
    singletons := [0, 1]
    sums := [(2, [1])]
    prods := [(3, [1, 2])]
    dists := [cloudDist]
    stochastic := [(0, 0)] }

/-- The first distribution belongs to a name that the street does not have, and `wet` shares it.  The
rain is assigned twice. -/
def ghostTable : PriorTable ℚ :=
  { dists := [ghostDist, rareDist, oftenDist]
    assignments := [("ghost", 0), ("rain", 1), ("wet", 0), ("rain", 2), ("slip", 1)] }

theorem ghostTable_assembled : ghostTable.Assembled :=
  .tie "slip" 1 (.add "rain" oftenDist
    (.tie "wet" 0 (.add "rain" rareDist (.add "ghost" ghostDist .empty)) rfl)) rfl

theorem cloudyStreet_priors_enter :
    ghostTable.Assembled ∧ cloudyStreet.PrimedBy ghostTable (cloudyStreet.applyPriors ghostTable) ∧
      (cloudyStreet.applyPriors ghostTable).dists = [cloudDist, rareDist, ghostDist, oftenDist] ∧
      (cloudyStreet.applyPriors ghostTable).stochastic = [(0, 0), (1, 3), (2, 2), (3, 1)] :=
  ⟨ghostTable_assembled, priors_enter cloudyStreet ghostTable_assembled, rfl, rfl⟩

end CausalGraph

end DerivationBelief

import DerivationBelief.Proofs.AddedNames
import DerivationBelief.Proofs.CoherentGraph
import DerivationBelief.Proofs.Sightings
import Mathlib.Tactic

/-!
# Families of added nodes

Every sighting adds four nodes behind those that are there, so the place of a family is known from
the number of sightings in front of it, and the latest replica of a node from the last of them that
is of this node.  The names of added nodes are new, whatever the nodes are called, as long as none
of them begins with the mark of added names.
-/

namespace DerivationBelief

/-- Folding over pieces one after another is folding over the whole. -/
theorem foldlM_flatMap {β γ δ ε : Type} (pieces : γ → List δ) (step : β → δ → Except ε β)
    (cs : List γ) (b : β) :
    (cs.flatMap pieces).foldlM step b = cs.foldlM (fun b c => (pieces c).foldlM step b) b := by
  induction cs generalizing b with
  | nil => rfl
  | cons c cs ih =>
      rw [List.flatMap_cons, List.foldlM_append, List.foldlM_cons]
      exact bind_congr ih

namespace CausalGraph

variable {α : Type} {g : CausalGraph α}

theorem addNode_of_new {node : String} (hnode : node ∉ g.nodes) :
    g.addNode node = ({ g with nodes := g.nodes ++ [node] }, g.nodeCount) := by
  have hinsert : Arrival.insert g.nodes node = g.nodes ++ [node] := if_neg hnode
  have hplace : nodeIn? (g.nodes ++ [node]) node = some g.nodeCount := by
    unfold nodeIn? nodeCount
    rw [Arrival.position?_eq_some_iff]
    exact ⟨by simp, by simp [List.idxOf_append_of_notMem hnode]⟩
  unfold addNode
  rw [hinsert]
  dsimp only
  rw [hplace]
  rfl

end CausalGraph

namespace DifferentiatingLearner

/-! ## Names -/

/-- The names of the nodes that a sighting adds, in order. -/
def familyNames (nodes : List String) (s : Sighting) : List String :=
  ["D", "T", "OCls", "O"].map (fun role => addedName role s.round (nodes.getD s.node ""))

theorem length_flatMap_familyNames (nodes : List String) (seen : List Sighting) :
    (seen.flatMap (familyNames nodes)).length = 4 * seen.length := by
  induction seen with
  | nil => rfl
  | cons s seen ih =>
      rw [List.flatMap_cons, List.length_append, ih, List.length_cons]
      change 4 + 4 * seen.length = 4 * (seen.length + 1)
      omega

theorem role_no_digit {role : String} (hrole : role ∈ ["D", "T", "OCls", "O"]) :
    ∀ c ∈ role.toList, c.isDigit = false := by
  have hall : ∀ role ∈ ["D", "T", "OCls", "O"],
      role.toList.all (fun c => !c.isDigit) = true := by
    decide +kernel
  intro c hc
  simpa using List.all_eq_true.mp (hall role hrole) c hc

/-- What is known of nodes and of sightings of them: no name begins with the mark, sightings are of
the nodes, and no two of them are of the same node in the same round. -/
structure Sighted (nodes : List String) (seen : List Sighting) : Prop where
  distinct : nodes.Nodup
  unmarked : ∀ node ∈ nodes, ¬ "_Dyna".toList <+: node.toList
  node_lt : ∀ s ∈ seen, s.node < nodes.length
  apart : (seen.map (fun s => (s.round, s.node))).Nodup

variable {nodes : List String} {seen rest : List Sighting} {s : Sighting}

theorem Sighted.of_append (hseen : Sighted nodes (seen ++ rest)) : Sighted nodes seen where
  distinct := hseen.distinct
  unmarked := hseen.unmarked
  node_lt := fun s hs => hseen.node_lt s (List.mem_append_left rest hs)
  apart := by
    have happart := hseen.apart
    rw [List.map_append, List.nodup_append] at happart
    exact happart.1

theorem Sighted.node_inj (hseen : Sighted nodes seen) {s other : Sighting} (hs : s ∈ seen)
    (hother : other ∈ seen) (hnames : nodes.getD s.node "" = nodes.getD other.node "") :
    s.node = other.node := by
  have hnode := hseen.node_lt s hs
  have hlater := hseen.node_lt other hother
  have hsame : nodes[s.node] = nodes[other.node] := by
    rw [List.getElem_eq_getD "", List.getElem_eq_getD "", hnames]
  exact hseen.distinct.getElem_inj_iff.mp hsame

theorem familyNames_nodup (nodes : List String) (s : Sighting) : (familyNames nodes s).Nodup := by
  unfold familyNames
  apply List.Nodup.map_on _ (by decide)
  intro role hrole other hother heq
  exact (addedName_inj (role_no_digit hrole) (role_no_digit hother) heq).1

/-- All names of the grown graph are different. -/
theorem Sighted.names_nodup (hseen : Sighted nodes seen) :
    (nodes ++ seen.flatMap (familyNames nodes)).Nodup := by
  have hadded : (seen.flatMap (familyNames nodes)).Nodup := by
    rw [List.nodup_flatMap]
    refine ⟨fun s _ => familyNames_nodup nodes s, ?_⟩
    have hpairs := List.pairwise_map.mp hseen.apart
    refine List.Pairwise.imp_of_mem ?_ hpairs
    intro s other hs hother hne name hname hagain
    obtain ⟨role, hrole, rfl⟩ := List.mem_map.mp hname
    obtain ⟨later, hlater, heq⟩ := List.mem_map.mp hagain
    obtain ⟨_, hround, hlabel⟩ := addedName_inj (role_no_digit hlater) (role_no_digit hrole) heq
    apply hne
    rw [hround, hseen.node_inj hother hs hlabel]
  refine hseen.distinct.append hadded ?_
  intro name hname hagain
  obtain ⟨s, _, hfamily⟩ := List.mem_flatMap.mp hagain
  obtain ⟨role, _, rfl⟩ := List.mem_map.mp hfamily
  exact hseen.unmarked _ hname (mark_prefix_addedName _ _ _)

/-! ## Places -/

/-- The latest replica of a node after some sightings, which is the node itself at first.  The
sightings add four nodes each, the second of which is the replica. -/
def latestReplica (first : Nat) (seen : List Sighting) (node : Nat) : Nat :=
  seen.zipIdx.foldl
    (fun latest entry => if entry.1.node = node then first + 4 * entry.2 + 1 else latest) node

theorem latestReplica_append (first : Nat) (seen : List Sighting) (s : Sighting) (node : Nat) :
    latestReplica first (seen ++ [s]) node =
      if s.node = node then first + 4 * seen.length + 1 else latestReplica first seen node := by
  unfold latestReplica
  rw [List.zipIdx_append, List.foldl_append]
  simp

/-- A node is its own latest replica, or its last sighting has the latest one. -/
theorem latestReplica_cases (first : Nat) (seen : List Sighting) (node : Nat) :
    (latestReplica first seen node = node ∧ ∀ s ∈ seen, s.node ≠ node) ∨
      ∃ front s rest, seen = front ++ s :: rest ∧ s.node = node ∧
        (∀ later ∈ rest, later.node ≠ node) ∧
        latestReplica first seen node = first + 4 * front.length + 1 := by
  induction seen using List.reverseRecOn with
  | nil => exact Or.inl ⟨rfl, by simp⟩
  | append_singleton seen s ih =>
      rw [latestReplica_append]
      by_cases hnode : s.node = node
      · rw [if_pos hnode]
        exact Or.inr ⟨seen, s, [], rfl, hnode, by simp, rfl⟩
      · rw [if_neg hnode]
        rcases ih with ⟨hself, hnone⟩ | ⟨front, last, rest, rfl, hlast, hrest, hlatest⟩
        · refine Or.inl ⟨hself, ?_⟩
          rw [List.forall_mem_append, List.forall_mem_singleton]
          exact ⟨hnone, hnode⟩
        · refine Or.inr ⟨front, last, rest ++ [s], by simp, hlast, ?_, hlatest⟩
          rw [List.forall_mem_append, List.forall_mem_singleton]
          exact ⟨hrest, hnode⟩

theorem latestReplica_lt {first node : Nat} (hnode : node < first) (seen : List Sighting) :
    latestReplica first seen node < first + 4 * seen.length ∧
      (latestReplica first seen node = node ∨ first < latestReplica first seen node) := by
  rcases latestReplica_cases first seen node with ⟨hself, _⟩ | ⟨front, s, rest, rfl, _, _, hlatest⟩
  · rw [hself]
    exact ⟨by omega, Or.inl rfl⟩
  · rw [hlatest, List.length_append, List.length_cons]
    exact ⟨by omega, Or.inr (by omega)⟩

/-- Different nodes have different latest replicas. -/
theorem latestReplica_inj {first node other : Nat} (hnode : node < first) (hother : other < first)
    (heq : latestReplica first seen node = latestReplica first seen other) : node = other := by
  rcases latestReplica_cases first seen node with ⟨hself, _⟩ | ⟨front, s, rest, rfl, hs, _, hlatest⟩
  · rcases (latestReplica_lt hother seen).2 with hsame | hlater
    · rw [← hself, heq, hsame]
    · omega
  · rcases latestReplica_cases first (front ++ s :: rest) other with
      ⟨hself, _⟩ | ⟨fore, last, tail, hsplit, hlast, _, hagain⟩
    · omega
    · have hlength : front.length = fore.length := by omega
      obtain ⟨_, htail⟩ := List.append_inj hsplit hlength
      rw [← hs, (List.cons.inj htail).1, hlast]

/-! ## Families -/

section Families

variable {α : Type} [Scalar α]

/-- The family of a sighting behind some others. -/
def plannedFamily (nodes : List String) (first : Nat) (seen : List Sighting) (s : Sighting) :
    ReplicaFamily α where
  previous := latestReplica first seen s.node
  derivation := first + 4 * seen.length
  derivationName := addedName "D" s.round (nodes.getD s.node "")
  replica := first + 4 * seen.length + 1
  clause := first + 4 * seen.length + 2
  clauseName := addedName "OCls" s.round (nodes.getD s.node "")
  observed := first + 4 * seen.length + 3
  frequency := s.count.share

def plannedFamilies (nodes : List String) (first : Nat) (seen : List Sighting) :
    List (ReplicaFamily α) :=
  seen.zipIdx.map (fun entry => plannedFamily nodes first (seen.take entry.2) entry.1)

theorem plannedFamilies_append (nodes : List String) (first : Nat) (seen : List Sighting)
    (s : Sighting) :
    plannedFamilies (α := α) nodes first (seen ++ [s]) =
      plannedFamilies nodes first seen ++ [plannedFamily nodes first seen s] := by
  unfold plannedFamilies
  rw [List.zipIdx_append, List.map_append]
  congr 1
  · apply List.map_congr_left
    rintro ⟨earlier, place⟩ hearlier
    have hplace : place < seen.length := List.snd_lt_of_mem_zipIdx hearlier
    rw [List.take_append_of_le_length hplace.le]
  · simp

/-- How far growing has come after some sightings. -/
structure Grew (start : CausalGraph α) (seen : List Sighting) (s : Growing α) : Prop where
  graph_eq : s.graph =
    { start with nodes := start.nodes ++ seen.flatMap (familyNames start.nodes) }
  latest_eq : ∀ node, (Arrival.get? s.latest node).getD node =
    latestReplica start.nodeCount seen node
  families_eq : s.families = plannedFamilies start.nodes start.nodeCount seen

variable {l : DifferentiatingLearner α} {start : CausalGraph α} {grown : Growing α}

omit [Scalar α] in
/-- Four new nodes get the four numbers behind the nodes that are there. -/
theorem growFamily_of_new {round node : Nat} {share : α} {name : String}
    (hname : l.graph.nodes[node]? = some name)
    (hnew : (grown.graph.nodes ++ ["D", "T", "OCls", "O"].map
      (fun role => addedName role round name)).Nodup) :
    l.growFamily round grown (node, share) = .ok {
      graph := { grown.graph with nodes := grown.graph.nodes ++
        ["D", "T", "OCls", "O"].map (fun role => addedName role round name) }
      latest := Arrival.put grown.latest node (grown.graph.nodeCount + 1)
      families := grown.families ++ [{
        previous := (Arrival.get? grown.latest node).getD node
        derivation := grown.graph.nodeCount
        derivationName := addedName "D" round name
        replica := grown.graph.nodeCount + 1
        clause := grown.graph.nodeCount + 2
        clauseName := addedName "OCls" round name
        observed := grown.graph.nodeCount + 3
        frequency := share }] } := by
  obtain ⟨g, latest, families⟩ := grown
  simp only [List.map_cons, List.map_nil] at hnew ⊢
  generalize hd : addedName "D" round name = d at hnew ⊢
  generalize ht : addedName "T" round name = t at hnew ⊢
  generalize hc : addedName "OCls" round name = c at hnew ⊢
  generalize ho : addedName "O" round name = o at hnew ⊢
  have hbehind : ∀ (front : List String) (x : String) (back : List String),
      front ++ x :: back = g.nodes ++ [d, t, c, o] → x ∉ front := by
    intro front x back hsplit hmem
    rw [← hsplit, List.nodup_middle, List.nodup_cons] at hnew
    exact hnew.1 (List.mem_append_left back hmem)
  let first : CausalGraph α := { g with nodes := g.nodes ++ [d] }
  let second : CausalGraph α := { g with nodes := g.nodes ++ [d] ++ [t] }
  let third : CausalGraph α := { g with nodes := g.nodes ++ [d] ++ [t] ++ [c] }
  have hderivation : g.addNode d = (first, g.nodeCount) :=
    CausalGraph.addNode_of_new (hbehind g.nodes d [t, c, o] rfl)
  have hreplica : first.addNode t = (second, first.nodeCount) :=
    CausalGraph.addNode_of_new (hbehind first.nodes t [c, o] (by simp [first]))
  have hclause : second.addNode c = (third, second.nodeCount) :=
    CausalGraph.addNode_of_new (hbehind second.nodes c [o] (by simp [second]))
  have hobserved : third.addNode o =
      ({ third with nodes := third.nodes ++ [o] }, third.nodeCount) :=
    CausalGraph.addNode_of_new (hbehind third.nodes o [] (by simp [third]))
  unfold growFamily
  simp only [hname, hd, ht, hc, ho, hderivation, hreplica, hclause, hobserved]
  simp [first, second, third, CausalGraph.nodeCount]

theorem Grew.growFamily (hgrown : Grew start seen grown) (hnodes : l.graph.nodes = start.nodes)
    (hseen : Sighted start.nodes (seen ++ [s])) :
    ∃ next, l.growFamily s.round grown (s.node, s.count.share) = .ok next ∧
      Grew start (seen ++ [s]) next := by
  have hnode : s.node < start.nodes.length := hseen.node_lt s (by simp)
  have hname : l.graph.nodes[s.node]? = some (start.nodes.getD s.node "") := by
    rw [hnodes, List.getElem?_eq_getElem hnode, List.getElem_eq_getD ""]
  have hall := hseen.names_nodup
  rw [List.flatMap_append, List.flatMap_singleton, ← List.append_assoc] at hall
  have hnew : (grown.graph.nodes ++ familyNames start.nodes s).Nodup := by
    rw [hgrown.graph_eq]
    exact hall
  have hcount : grown.graph.nodeCount = start.nodeCount + 4 * seen.length := by
    rw [hgrown.graph_eq]
    unfold CausalGraph.nodeCount
    rw [List.length_append, length_flatMap_familyNames]
  refine ⟨_, growFamily_of_new hname hnew, ?_⟩
  constructor
  case graph_eq =>
    dsimp only
    rw [hgrown.graph_eq, List.flatMap_append, List.flatMap_singleton, ← List.append_assoc]
    rfl
  case latest_eq =>
    intro node
    dsimp only
    rw [Arrival.get?_put, latestReplica_append, hcount]
    by_cases hsame : s.node = node
    · rw [if_pos hsame, if_pos hsame]
      rfl
    · rw [if_neg hsame, if_neg hsame, hgrown.latest_eq]
  case families_eq =>
    dsimp only
    rw [plannedFamilies_append, hgrown.families_eq, hgrown.latest_eq, hcount]
    rfl

theorem exists_growNodes (hnodes : l.graph.nodes = start.nodes)
    (hrounds : flatRounds l.rounds = seen.map (fun s => (s.round, s.node, s.count.share)))
    (hseen : Sighted start.nodes seen) :
    ∃ grown, l.growNodes start = .ok grown ∧ Grew start seen grown := by
  have hflat : l.growNodes start =
      seen.foldlM (fun grown s => l.growFamily s.round grown (s.node, s.count.share))
        ⟨start, [], []⟩ := by
    have hall : l.growNodes start =
        (flatRounds l.rounds).foldlM (fun grown entry => l.growFamily entry.1 grown entry.2)
          ⟨start, [], []⟩ := by
      unfold growNodes flatRounds
      rw [foldlM_flatMap]
      simp only [List.foldlM_map]
    rw [hall, hrounds, List.foldlM_map]
  rw [hflat]
  clear hflat hrounds
  induction seen using List.reverseRecOn with
  | nil =>
      refine ⟨_, rfl, ?_⟩
      constructor
      case graph_eq => simp
      case latest_eq => exact fun _ => rfl
      case families_eq => rfl
  | append_singleton seen s ih =>
      obtain ⟨grown, hrun, hgrown⟩ := ih hseen.of_append
      obtain ⟨next, hstep, hnext⟩ := hgrown.growFamily hnodes hseen
      refine ⟨next, ?_, hnext⟩
      rw [List.foldlM_append, hrun]
      exact bind_eq_ok_iff.mpr ⟨grown, rfl, bind_eq_ok_iff.mpr ⟨next, hstep, rfl⟩⟩

end Families

end DifferentiatingLearner

end DerivationBelief

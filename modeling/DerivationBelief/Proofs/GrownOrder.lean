import DerivationBelief.Proofs.CycleChecks
import DerivationBelief.Proofs.GrownPriors
import DerivationBelief.Proofs.LearnerRuns
import Mathlib.Tactic

/-!
# Roles and order of the grown graph

Every added node is the product or the sum of one derivation, in turns, so the grown graph validates
when the graph does.  It has an order when the graph has one: the replicas of a node rise with its
sightings from the depth of the node, and stay below the depth of what the node leads to.
-/

namespace DerivationBelief

variable {α : Type} {g graph : CausalGraph α}

namespace CausalGraph

theorem roleCount_eq_one_of_sum {id : Nat} (hsingleton : id ∉ g.singletons)
    (hsum : id ∈ g.sums.map Prod.fst) (hprod : id ∉ g.prods.map Prod.fst) : g.roleCount id = 1 := by
  rw [← isSingleton_iff, Bool.not_eq_true] at hsingleton
  rw [← isSum_iff] at hsum
  rw [← isProd_iff, Bool.not_eq_true] at hprod
  simp [roleCount, hsingleton, hsum, hprod]

theorem roleCount_eq_one_of_prod {id : Nat} (hsingleton : id ∉ g.singletons)
    (hsum : id ∉ g.sums.map Prod.fst) (hprod : id ∈ g.prods.map Prod.fst) : g.roleCount id = 1 := by
  rw [← isSingleton_iff, Bool.not_eq_true] at hsingleton
  rw [← isSum_iff, Bool.not_eq_true] at hsum
  rw [← isProd_iff] at hprod
  simp [roleCount, hsingleton, hsum, hprod]

theorem roleCount_congr {id : Nat} (hsingletons : id ∈ g.singletons ↔ id ∈ graph.singletons)
    (hsums : id ∈ g.sums.map Prod.fst ↔ id ∈ graph.sums.map Prod.fst)
    (hprods : id ∈ g.prods.map Prod.fst ↔ id ∈ graph.prods.map Prod.fst) :
    g.roleCount id = graph.roleCount id := by
  rw [← isSingleton_iff, ← isSingleton_iff, ← Bool.eq_iff_iff] at hsingletons
  rw [← isSum_iff, ← isSum_iff, ← Bool.eq_iff_iff] at hsums
  rw [← isProd_iff, ← isProd_iff, ← Bool.eq_iff_iff] at hprods
  simp [roleCount, hsingletons, hsums, hprods]

end CausalGraph

namespace DifferentiatingLearner

variable [Scalar α] {nodes : List String} {first : Nat} {seen : List Sighting} {s : Sighting}

/-! ## Roles -/

theorem mem_keys_familySums {id : Nat} :
    id ∈ ((plannedFamilies (α := α) nodes first seen).flatMap familySums).map Prod.fst ↔
      first ≤ id ∧ id < first + 4 * seen.length ∧ (id - first) % 2 = 1 := by
  induction seen using List.reverseRecOn with
  | nil =>
      simp [plannedFamilies]
      omega
  | append_singleton seen s ih =>
      rw [plannedFamilies_append, List.flatMap_append, List.map_append, List.mem_append, ih,
        List.length_append, List.length_singleton]
      simp only [plannedFamily, familySums, List.flatMap_singleton, List.map_cons, List.map_nil,
        List.mem_cons, List.not_mem_nil, or_false]
      omega

theorem mem_keys_familyProds {id : Nat} :
    id ∈ ((plannedFamilies (α := α) nodes first seen).flatMap familyProds).map Prod.fst ↔
      first ≤ id ∧ id < first + 4 * seen.length ∧ (id - first) % 2 = 0 := by
  induction seen using List.reverseRecOn with
  | nil =>
      simp [plannedFamilies]
      omega
  | append_singleton seen s ih =>
      rw [plannedFamilies_append, List.flatMap_append, List.map_append, List.mem_append, ih,
        List.length_append, List.length_singleton]
      simp only [plannedFamily, familyProds, List.flatMap_singleton, List.map_cons, List.map_nil,
        List.mem_cons, List.not_mem_nil, or_false]
      omega

/-- The grown graph has what the graph has, with latest replicas in its products, and the families
of the sightings. -/
structure Grown (graph : CausalGraph α) (seen : List Sighting) (g : CausalGraph α) : Prop where
  nodes_eq : g.nodes = graph.nodes ++ seen.flatMap (familyNames graph.nodes)
  singletons_eq : g.singletons = graph.singletons
  sums_eq : g.sums = graph.sums ++
    (plannedFamilies (α := α) graph.nodes graph.nodeCount seen).flatMap familySums
  prods_eq : g.prods = graph.prods.map (redirect graph.nodeCount seen) ++
    (plannedFamilies (α := α) graph.nodes graph.nodeCount seen).flatMap familyProds

theorem Grown.nodeCount_eq (hg : Grown graph seen g) :
    g.nodeCount = graph.nodeCount + 4 * seen.length := by
  unfold CausalGraph.nodeCount
  rw [hg.nodes_eq, List.length_append, length_flatMap_familyNames]

theorem Grown.validate (hg : Grown graph seen g) (hgraph : graph.Coherent)
    (hvalid : graph.validate = .ok ()) : g.validate = .ok () := by
  have hsum : ∀ id, id ∈ g.sums.map Prod.fst ↔ id ∈ graph.sums.map Prod.fst ∨
      (graph.nodeCount ≤ id ∧ id < graph.nodeCount + 4 * seen.length ∧
        (id - graph.nodeCount) % 2 = 1) := by
    intro id
    rw [hg.sums_eq, List.map_append, List.mem_append, mem_keys_familySums]
  have hprod : ∀ id, id ∈ g.prods.map Prod.fst ↔ id ∈ graph.prods.map Prod.fst ∨
      (graph.nodeCount ≤ id ∧ id < graph.nodeCount + 4 * seen.length ∧
        (id - graph.nodeCount) % 2 = 0) := by
    intro id
    rw [hg.prods_eq, List.map_append, List.mem_append, mem_keys_familyProds, List.map_map]
    rfl
  rw [CausalGraph.validate_ok_iff, hg.nodeCount_eq]
  intro id hid
  by_cases hold : id < graph.nodeCount
  · rw [← CausalGraph.validate_ok_iff.mp hvalid id hold]
    apply CausalGraph.roleCount_congr
    · rw [hg.singletons_eq]
    · rw [hsum, or_iff_left (by omega)]
    · rw [hprod, or_iff_left (by omega)]
  · have hsingleton : id ∉ g.singletons := by
      rw [hg.singletons_eq]
      exact fun hmem => hold (hgraph.singletons_lt id hmem)
    have holdSum : id ∉ graph.sums.map Prod.fst := fun hmem => by
      obtain ⟨d, hd, rfl⟩ := List.mem_map.mp hmem
      exact hold (hgraph.sums.head_lt d hd)
    have holdProd : id ∉ graph.prods.map Prod.fst := fun hmem => by
      obtain ⟨d, hd, rfl⟩ := List.mem_map.mp hmem
      exact hold (hgraph.prods.head_lt d hd)
    rcases Nat.mod_two_eq_zero_or_one (id - graph.nodeCount) with heven | hodd
    · apply CausalGraph.roleCount_eq_one_of_prod hsingleton
      · rw [hsum, or_iff_right holdSum]
        omega
      · rw [hprod]
        exact Or.inr ⟨Nat.le_of_not_lt hold, hid, heven⟩
    · apply CausalGraph.roleCount_eq_one_of_sum hsingleton
      · rw [hsum]
        exact Or.inr ⟨Nat.le_of_not_lt hold, hid, hodd⟩
      · rw [hprod, or_iff_right holdProd]
        omega

/-! ## Order -/

/-- Added nodes stand behind the node that they replicate, and in front of those that it leads to,
in the order of the sightings. -/
def grownRank (depth : Nat → Nat) (first : Nat) (seen : List Sighting) (id : Nat) : Nat :=
  if id < first then depth id * (2 * seen.length + 1)
  else depth (((seen.map Sighting.node)[(id - first) / 4]?).getD 0) * (2 * seen.length + 1) +
    2 * ((id - first) / 4) + 1 + (id - first) % 2

variable {depth : Nat → Nat} {front rest : List Sighting}

omit [Scalar α] in
theorem grownRank_family (hseen : seen = front ++ s :: rest) {place : Nat} (hplace : place < 4) :
    grownRank depth first seen (first + 4 * front.length + place) =
      depth s.node * (2 * seen.length + 1) + 2 * front.length + 1 + place % 2 := by
  have hquotient : (first + 4 * front.length + place - first) / 4 = front.length := by omega
  have hparity : (first + 4 * front.length + place - first) % 2 = place % 2 := by omega
  have hget : (seen.map Sighting.node)[front.length]? = some s.node := by
    rw [hseen]
    simp
  unfold grownRank
  rw [if_neg (by omega), hquotient, hparity, hget]
  rfl

omit [Scalar α] in
theorem grownRank_latestReplica_le (hseen : seen = front ++ rest) {node : Nat}
    (hnode : node < first) :
    grownRank depth first seen (latestReplica first front node) ≤
      depth node * (2 * seen.length + 1) + 2 * front.length := by
  rcases latestReplica_cases first front node with
    ⟨hself, _⟩ | ⟨fore, last, tail, rfl, rfl, _, hlatest⟩
  · rw [hself]
    unfold grownRank
    rw [if_pos hnode]
    omega
  · have hsplit : seen = fore ++ last :: (tail ++ rest) := by simp [hseen]
    rw [hlatest, grownRank_family hsplit (by omega)]
    simp only [List.length_append, List.length_cons]
    omega

/-- Products of a family are one step above the previous replica, and sums are two. -/
structure RanksAbove (rank : Nat → Nat) (f : ReplicaFamily α) : Prop where
  derivation : rank f.previous < rank f.derivation
  replica : rank f.derivation < rank f.replica
  clause : rank f.previous < rank f.clause
  observed : rank f.clause < rank f.observed

theorem ranksAbove_planned (hseen : seen = front ++ s :: rest) (hnode : s.node < first) :
    RanksAbove (grownRank depth first seen) (plannedFamily (α := α) nodes first front s) := by
  have hprevious : grownRank depth first seen (latestReplica first front s.node) ≤ _ :=
    grownRank_latestReplica_le hseen hnode
  have hderivation : grownRank depth first seen (first + 4 * front.length) = _ :=
    grownRank_family hseen (Nat.zero_lt_succ 3)
  have hreplica : grownRank depth first seen (first + 4 * front.length + 1) = _ :=
    grownRank_family hseen (by decide)
  have hclause : grownRank depth first seen (first + 4 * front.length + 2) = _ :=
    grownRank_family hseen (by decide)
  have hobserved : grownRank depth first seen (first + 4 * front.length + 3) = _ :=
    grownRank_family hseen (by decide)
  unfold plannedFamily
  constructor <;> dsimp only <;> omega

omit [Scalar α] in
theorem grownRank_of_lt {id : Nat} (hid : id < first) :
    grownRank depth first seen id = depth id * (2 * seen.length + 1) :=
  if_pos hid

/-- Every step of the grown graph rises. -/
theorem Grown.rank_lt (hg : Grown graph seen g) (hgraph : graph.Coherent)
    (hseen : ∀ s ∈ seen, s.node < graph.nodeCount)
    (hdepth : ∀ v w, graph.Leads v w → depth v < depth w) {v w : Nat} (hleads : g.Leads v w) :
    grownRank depth graph.nodeCount seen v < grownRank depth graph.nodeCount seen w := by
  have hrise : ∀ v w, graph.Leads v w →
      depth v * (2 * seen.length + 1) + 2 * seen.length < depth w * (2 * seen.length + 1) := by
    intro v w hold
    have hle : (depth v + 1) * (2 * seen.length + 1) ≤ depth w * (2 * seen.length + 1) :=
      Nat.mul_le_mul_right _ (hdepth v w hold)
    rw [Nat.add_mul] at hle
    omega
  have hfamilies : ∀ f ∈ plannedFamilies (α := α) graph.nodes graph.nodeCount seen,
      RanksAbove (grownRank depth graph.nodeCount seen) f := by
    intro f hf
    obtain ⟨front, s, rest, hsplit, rfl⟩ := mem_plannedFamilies hf
    exact ranksAbove_planned hsplit (hseen s (hsplit ▸ by simp))
  obtain ⟨body, hsum | hprod, hv⟩ := CausalGraph.leads_iff.mp hleads
  · rw [hg.sums_eq, List.mem_append] at hsum
    rcases hsum with hold | hfamily
    · have holdLeads : graph.Leads v w := CausalGraph.leads_iff.mpr ⟨body, Or.inl hold, hv⟩
      obtain ⟨hvlt, hwlt⟩ := hgraph.leads_lt holdLeads
      rw [grownRank_of_lt hvlt, grownRank_of_lt hwlt]
      have hlt := hrise v w holdLeads
      omega
    · obtain ⟨f, hf, hderives⟩ := List.mem_flatMap.mp hfamily
      have hranks := hfamilies f hf
      simp only [familySums, List.mem_cons, Prod.mk.injEq, List.not_mem_nil, or_false] at hderives
      rcases hderives with ⟨rfl, rfl⟩ | ⟨rfl, rfl⟩
      · exact List.mem_singleton.mp hv ▸ hranks.replica
      · exact List.mem_singleton.mp hv ▸ hranks.observed
  · rw [hg.prods_eq, List.mem_append] at hprod
    rcases hprod with hold | hfamily
    · obtain ⟨⟨head, old⟩, hd, heq⟩ := List.mem_map.mp hold
      obtain ⟨rfl, rfl⟩ := Prod.mk.inj heq
      obtain ⟨node, hnode, rfl⟩ := List.mem_map.mp hv
      have holdLeads : graph.Leads node head :=
        CausalGraph.leads_iff.mpr ⟨old, Or.inr hd, hnode⟩
      obtain ⟨hnodelt, hheadlt⟩ := hgraph.leads_lt holdLeads
      have hle : grownRank depth graph.nodeCount seen (latestReplica graph.nodeCount seen node) ≤
          depth node * (2 * seen.length + 1) + 2 * seen.length :=
        grownRank_latestReplica_le (List.append_nil seen).symm hnodelt
      rw [grownRank_of_lt hheadlt]
      exact hle.trans_lt (hrise node head holdLeads)
    · obtain ⟨f, hf, hderives⟩ := List.mem_flatMap.mp hfamily
      have hranks := hfamilies f hf
      simp only [familyProds, List.mem_cons, Prod.mk.injEq, List.not_mem_nil, or_false] at hderives
      rcases hderives with ⟨rfl, rfl⟩ | ⟨rfl, rfl⟩
      · exact List.mem_singleton.mp hv ▸ hranks.derivation
      · exact List.mem_singleton.mp hv ▸ hranks.clause

theorem Grown.acyclic (hg : Grown graph seen g) (hgraph : graph.Coherent)
    (hseen : ∀ s ∈ seen, s.node < graph.nodeCount) (hacyclic : Acyclic graph.Leads) :
    Acyclic g.Leads := by
  let depth := behindCount graph.Leads graph.nodeCount
  have hdepth : ∀ v w, graph.Leads v w → depth v < depth w := fun v w hleads =>
    behindCount_lt hacyclic (hgraph.leads_lt hleads).1 hleads
  exact Acyclic.of_rank (grownRank depth graph.nodeCount seen)
    (fun _ _ => hg.rank_lt hgraph hseen hdepth)

end DifferentiatingLearner

end DerivationBelief

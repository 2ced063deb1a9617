import DerivationBelief.Proofs.GrownGraph
import Mathlib.Tactic

/-!
# Priors of the grown graph

The learner gives every product of its graph the same prior and drops all others, and growing keeps
these.  Of a family, the derivation has the prior of products, the observed clause has the share of
its sighting, and the two sums have none.
-/

namespace DerivationBelief

variable {α : Type}

namespace CausalGraph

variable {g : CausalGraph α}

/-- The distribution that a node draws from. -/
def prior? (g : CausalGraph α) (id : Nat) : Option (Distribution α) :=
  (g.distOf? id).bind (fun dist => g.dists[dist]?)

/-- Stochastic nodes refer to distributions that the graph has. -/
def Refers (g : CausalGraph α) : Prop :=
  ∀ entry ∈ g.stochastic, entry.2 < g.distCount

theorem prior?_put (hrefers : g.Refers) (d : Distribution α) (node id : Nat) :
    CausalGraph.prior? { g with
      dists := g.dists ++ [d]
      stochastic := Arrival.put g.stochastic node g.distCount } id =
      if node = id then some d else g.prior? id := by
  unfold prior? distOf?
  dsimp only
  rw [Arrival.get?_put]
  by_cases hid : node = id
  · rw [if_pos hid, if_pos hid]
    simp [distCount]
  · rw [if_neg hid, if_neg hid]
    cases hget : Arrival.get? g.stochastic id with
    | none => rfl
    | some dist =>
        have hlt : dist < g.dists.length := hrefers _ (Arrival.mem_of_get? hget)
        exact List.getElem?_append_left hlt

theorem refers_put (hrefers : g.Refers) (d : Distribution α) (node : Nat) :
    CausalGraph.Refers { g with
      dists := g.dists ++ [d]
      stochastic := Arrival.put g.stochastic node g.distCount } := by
  intro entry hentry
  have hlength : (g.dists ++ [d]).length = g.distCount + 1 := by simp [distCount]
  change entry.2 < (g.dists ++ [d]).length
  rw [hlength]
  rcases Arrival.mem_put hentry with hold | rfl
  · exact (hrefers entry hold).trans (Nat.lt_succ_self _)
  · exact Nat.lt_succ_self _

theorem prior?_eq_none {id : Nat} (hid : id ∉ g.stochastic.map Prod.fst) : g.prior? id = none := by
  unfold prior? distOf?
  rw [Arrival.get?_eq_none_iff.mpr hid]
  rfl

theorem nodeId?_getElem (hnodes : g.nodes.Nodup) {id : Nat} {node : String}
    (hnode : g.nodes[id]? = some node) : g.nodeId? node = some id := by
  obtain ⟨hlt, rfl⟩ := List.getElem?_eq_some_iff.mp hnode
  unfold nodeId? nodeIn?
  rw [Arrival.position?_eq_some_iff]
  exact ⟨List.getElem_mem hlt, (hnodes.idxOf_getElem id hlt).symm⟩

/-- A graph in which some nodes of another one have been given the same prior. -/
structure Primed (d : Distribution α) (ids : List Nat) (g last : CausalGraph α) : Prop where
  constructed : last.Constructed
  name_eq : last.name = g.name
  nodes_eq : last.nodes = g.nodes
  singletons_eq : last.singletons = g.singletons
  sums_eq : last.sums = g.sums
  prods_eq : last.prods = g.prods
  prior_eq : ∀ id, last.prior? id = if id ∈ ids then some d else g.prior? id

theorem Constructed.refers (hg : g.Constructed) : g.Refers :=
  fun entry hentry => (hg.coherent.stochastic_lt entry hentry).2

theorem primed_foldl (hg : g.Constructed) (d : Distribution α) {heads : List String}
    {ids : List Nat} (hheads : heads.map g.nodeId? = ids.map some) :
    Primed d ids g (heads.foldl (fun g head => (g.setPrior head d).1) g) := by
  induction heads generalizing g ids with
  | nil =>
      cases List.map_eq_nil_iff.mp hheads.symm
      exact ⟨hg, rfl, rfl, rfl, rfl, rfl, fun _ => (if_neg List.not_mem_nil).symm⟩
  | cons head heads ih =>
      obtain ⟨first, rest, rfl, hfirst, hrest⟩ := List.map_eq_cons_iff.mp hheads.symm
      have hset : (g.setPrior head d).1 = { g with
          dists := g.dists ++ [d]
          stochastic := Arrival.put g.stochastic first g.distCount } := by
        unfold setPrior
        rw [← hfirst]
      have hrestHeads : heads.map (g.setPrior head d).1.nodeId? = rest.map some := by
        rw [hset]
        exact hrest.symm
      have hnext := ih (hg.setPrior head d) hrestHeads
      have hprior : ∀ id, (g.setPrior head d).1.prior? id =
          if first = id then some d else g.prior? id := by
        intro id
        rw [hset]
        exact prior?_put hg.refers d first id
      rw [List.foldl_cons]
      constructor
      case constructed => exact hnext.constructed
      case name_eq => rw [hnext.name_eq, hset]
      case nodes_eq => rw [hnext.nodes_eq, hset]
      case singletons_eq => rw [hnext.singletons_eq, hset]
      case sums_eq => rw [hnext.sums_eq, hset]
      case prods_eq => rw [hnext.prods_eq, hset]
      case prior_eq =>
        intro id
        rw [hnext.prior_eq, hprior]
        by_cases hid : id ∈ rest
        · rw [if_pos hid, if_pos (List.mem_cons_of_mem first hid)]
        · rw [if_neg hid]
          simp only [List.mem_cons, hid, or_false]
          exact if_congr eq_comm rfl rfl

end CausalGraph

namespace DifferentiatingLearner

variable [Scalar α] {g : CausalGraph α} {seen : List Sighting} {s : Sighting} {nodes : List String}
  {first : Nat} {rule : α}

/-! ## Canonical priors -/

/-- The learner starts with a graph in which exactly the products have a prior, all the same. -/
theorem exists_canonicalGraph (hα : CountsInUnit α) {graph : CausalGraph α}
    (hg : graph.Constructed) (hrule : Scalar.inUnit rule = true) :
    ∃ base, canonicalGraph rule graph = .ok base ∧
      CausalGraph.Primed (.atOne rule) (graph.prods.map Prod.fst) graph.forgetPriors base := by
  let heads := graph.prods.filterMap (fun d => graph.nodes[d.1]?)
  have hrun : canonicalGraph rule graph = .ok (heads.foldl
      (fun g head => (g.setPrior head (.atOne rule)).1) graph.forgetPriors) := by
    unfold canonicalGraph
    apply foldlM_eq_ok (fun g head => (CausalGraph.setPrior g head (.atOne rule)).1)
    intro g head _
    rw [hα.pointMass hrule]
    rfl
  refine ⟨_, hrun, CausalGraph.primed_foldl hg.forgetPriors _ ?_⟩
  have hcoherent := hg.coherent
  have hlt := hcoherent.prods.head_lt
  -- Every head of a product has a name, by which it is found.
  change (graph.prods.filterMap (fun d => graph.nodes[d.1]?)).map graph.nodeId? = _
  generalize graph.prods = prods at hlt
  induction prods with
  | nil => rfl
  | cons d prods ih =>
      rw [List.forall_mem_cons] at hlt
      obtain ⟨name, hname⟩ : ∃ name, graph.nodes[d.1]? = some name :=
        ⟨_, List.getElem?_eq_getElem hlt.1⟩
      have hplace := CausalGraph.nodeId?_getElem hcoherent.nodes_nodup hname
      simp [hname, hplace, ih hlt.2]

/-! ## Priors of families -/

theorem mem_plannedFamilies {f : ReplicaFamily α} (hf : f ∈ plannedFamilies nodes first seen) :
    ∃ front s rest, seen = front ++ s :: rest ∧ f = plannedFamily nodes first front s := by
  induction seen using List.reverseRecOn with
  | nil => cases hf
  | append_singleton seen s ih =>
      rw [plannedFamilies_append, List.mem_append, List.mem_singleton] at hf
      rcases hf with hold | rfl
      · obtain ⟨front, other, rest, rfl, hother⟩ := ih hold
        exact ⟨front, other, rest ++ [s], by simp, hother⟩
      · exact ⟨seen, s, [], rfl, rfl⟩

/-- The nodes of a family stand next to each other, among those of all sightings. -/
theorem places_of_mem_plannedFamilies {f : ReplicaFamily α}
    (hf : f ∈ plannedFamilies nodes first seen) :
    first ≤ f.derivation ∧ f.replica = f.derivation + 1 ∧ f.clause = f.derivation + 2 ∧
      f.observed = f.derivation + 3 ∧ f.observed < first + 4 * seen.length := by
  obtain ⟨front, s, rest, rfl, rfl⟩ := mem_plannedFamilies hf
  refine ⟨Nat.le_add_right _ _, rfl, rfl, rfl, ?_⟩
  rw [List.length_append, List.length_cons]
  change first + 4 * front.length + 3 < _
  omega

/-- What the nodes of a family draw from. -/
structure FamilyPriors (rule : α) (f : ReplicaFamily α) (g : CausalGraph α) : Prop where
  derivation : g.prior? f.derivation = some (.atOne rule)
  replica : g.prior? f.replica = none
  clause : g.prior? f.clause = some (.atOne f.frequency)
  observed : g.prior? f.observed = none

theorem prior?_attached {prod sum previous : Nat} {value : α} (hbelow : Below prod g)
    (hrefers : g.Refers) (id : Nat) :
    (attached g prod sum previous value).prior? id =
      if prod = id then some (.atOne value) else g.prior? id := by
  rw [← CausalGraph.prior?_put hrefers]
  unfold attached
  rw [Arrival.put_of_new (notMem_keys_of_lt hbelow.stochastic)]
  rfl

theorem refers_attached {prod sum previous : Nat} {value : α} (hbelow : Below prod g)
    (hrefers : g.Refers) : (attached g prod sum previous value).Refers := by
  have hput := CausalGraph.refers_put hrefers (.atOne value) prod
  rw [Arrival.put_of_new (notMem_keys_of_lt hbelow.stochastic)] at hput
  exact hput

theorem priors_foldl (hbelow : Below first g) (hrefers : g.Refers) (rule : α)
    (nodes : List String) (seen : List Sighting) :
    let last := (plannedFamilies nodes first seen).foldl (connected rule) g
    last.Refers ∧ (∀ id < first, last.prior? id = g.prior? id) ∧
      ∀ f ∈ plannedFamilies nodes first seen, FamilyPriors rule f last := by
  induction seen using List.reverseRecOn with
  | nil => exact ⟨hrefers, fun _ _ => rfl, fun _ hf => absurd hf List.not_mem_nil⟩
  | append_singleton seen s ih =>
      have hbefore := below_foldl hbelow rule nodes seen
      rw [plannedFamilies_append]
      dsimp only
      rw [List.foldl_append]
      dsimp only at ih
      set before := (plannedFamilies nodes first seen).foldl (connected rule) g
      obtain ⟨hbeforeRefers, hold, hfamilies⟩ := ih
      let f : ReplicaFamily α := plannedFamily nodes first seen s
      have hderivation : Below f.derivation before := hbefore
      have hclause : Below f.clause (attached before f.derivation f.replica f.previous rule) :=
        hderivation.attached (Nat.lt_succ_self _) f.previous rule
      have hhalf : (attached before f.derivation f.replica f.previous rule).Refers :=
        refers_attached hderivation hbeforeRefers
      have hprior : ∀ id, (connected rule before f).prior? id =
          if f.clause = id then some (.atOne f.frequency)
          else if f.derivation = id then some (.atOne rule) else before.prior? id := by
        intro id
        unfold connected
        rw [prior?_attached hclause hhalf, prior?_attached hderivation hbeforeRefers]
      have hother : ∀ id, id ≠ f.clause → id ≠ f.derivation →
          (connected rule before f).prior? id = before.prior? id := by
        intro id hclauseNe hderivationNe
        rw [hprior, if_neg hclauseNe.symm, if_neg hderivationNe.symm]
      have hderivationPlace : f.derivation = first + 4 * seen.length := rfl
      have hclausePlace : f.clause = f.derivation + 2 := rfl
      have hreplicaPlace : f.replica = f.derivation + 1 := rfl
      have hobservedPlace : f.observed = f.derivation + 3 := rfl
      -- The sums have not been given a prior, and neither has anything behind the family.
      have hnone : ∀ id, f.derivation ≤ id → before.prior? id = none := by
        intro id hid
        exact CausalGraph.prior?_eq_none (notMem_keys_of_lt fun entry hentry =>
          (hderivation.stochastic entry hentry).trans_le hid)
      refine ⟨refers_attached hclause hhalf, ?_, ?_⟩
      · intro id hid
        exact (hother id (by omega) (by omega)).trans (hold id hid)
      · rw [List.forall_mem_append, List.forall_mem_singleton]
        constructor
        · intro earlier hearlier
          have hpriors := hfamilies earlier hearlier
          obtain ⟨_, hreplica, hclauseEarlier, hobserved, hlt⟩ :=
            places_of_mem_plannedFamilies hearlier
          constructor
          case derivation => exact (hother _ (by omega) (by omega)).trans hpriors.derivation
          case replica => exact (hother _ (by omega) (by omega)).trans hpriors.replica
          case clause => exact (hother _ (by omega) (by omega)).trans hpriors.clause
          case observed => exact (hother _ (by omega) (by omega)).trans hpriors.observed
        · constructor
          case derivation => exact (hprior f.derivation).trans (by simp [hclausePlace])
          case replica => exact (hother f.replica (by omega) (by omega)).trans (hnone _ (by omega))
          case clause => exact (hprior f.clause).trans (if_pos rfl)
          case observed =>
            exact (hother f.observed (by omega) (by omega)).trans (hnone _ (by omega))

end DifferentiatingLearner

end DerivationBelief

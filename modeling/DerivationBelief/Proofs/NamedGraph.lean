import DerivationBelief.PriorTable
import DerivationBelief.Proofs.CoherentGraph
import Mathlib.Tactic

/-!
# Graphs over names

A graph is described by the names of its nodes.  When all references are to nodes, no body mentions
its head and no head is derived twice in the same way, building resolves every name to its place and
only the roles of the nodes are left to check.  Read by names again, the graph is what was described.
-/

namespace DerivationBelief

namespace CausalGraph

variable {α : Type} {nodes : List String}

/-- The places of some names, each place once. -/
def placesOf (nodes names : List String) : List Nat :=
  Arrival.distinct (names.map nodes.idxOf)

def placed (nodes : List String) (d : Derivation) : Nat × List Nat :=
  (nodes.idxOf d.1, placesOf nodes d.2)

/-- The graph that some names describe. -/
def ofNames (name : String) (nodes singletons : List String) (sums prods : List Derivation) :
    CausalGraph α :=
  { name, nodes
    singletons := placesOf nodes singletons
    sums := sums.map (placed nodes)
    prods := prods.map (placed nodes)
    dists := []
    stochastic := [] }

/-- Derivations that can be resolved over some nodes. -/
structure Resolvable (nodes : List String) (derivations : List Derivation) : Prop where
  heads_nodup : (derivations.map Prod.fst).Nodup
  head_mem : ∀ d ∈ derivations, d.1 ∈ nodes
  body_subset : ∀ d ∈ derivations, d.2 ⊆ nodes
  no_self : ∀ d ∈ derivations, d.1 ∉ d.2

/-! ## Building -/

theorem nodeIn?_of_mem {node : String} (hnode : node ∈ nodes) :
    nodeIn? nodes node = some (nodes.idxOf node) :=
  Arrival.position?_eq_some_iff.mpr ⟨hnode, rfl⟩

theorem placesOf_eq_foldl (names : List String) :
    placesOf nodes names =
      names.foldl (fun found node => Arrival.insert found (nodes.idxOf node)) [] :=
  List.foldl_map

theorem resolveSingletons_of_subset {singletons : List String} (hsubset : singletons ⊆ nodes) :
    resolveSingletons nodes singletons = .ok (placesOf nodes singletons) := by
  rw [placesOf_eq_foldl]
  refine foldlM_eq_ok _ (fun found node hnode => ?_) []
  rw [nodeIn?_of_mem (hsubset hnode)]

theorem resolveBody_of_subset {head : String} {names : List String}
    (hsubset : names ⊆ nodes) (hself : head ∉ names) :
    resolveBody nodes head (nodes.idxOf head) names = .ok (placesOf nodes names) := by
  rw [placesOf_eq_foldl]
  refine foldlM_eq_ok _ (fun found sub hsub => ?_) []
  have hne : nodes.idxOf sub ≠ nodes.idxOf head := by
    intro heq
    rw [(List.idxOf_inj (hsubset hsub)).mp heq] at hsub
    exact hself hsub
  rw [nodeIn?_of_mem (hsubset hsub)]
  exact if_neg hne

theorem resolveDerivations_of_resolvable {derivations : List Derivation}
    (hderivations : Resolvable nodes derivations) :
    resolveDerivations nodes derivations = .ok (derivations.map (placed nodes)) := by
  have hrun : ∀ (rest done : List Derivation), Resolvable nodes (done ++ rest) →
      rest.foldlM (resolveDerivation nodes) (done.map (placed nodes)) =
        .ok ((done ++ rest).map (placed nodes)) := by
    intro rest
    induction rest with
    | nil =>
        intro done _
        rw [List.append_nil]
        rfl
    | cons d rest ih =>
        intro done hall
        have hmem : d ∈ done ++ d :: rest := by simp
        have hhead := hall.head_mem d hmem
        have hnew : Arrival.hasKey (done.map (placed nodes)) (nodes.idxOf d.1) = false := by
          rw [Bool.eq_false_iff, Ne, Arrival.hasKey_iff, List.map_map]
          intro hold
          obtain ⟨e, he, heq⟩ := List.mem_map.mp hold
          have hsame : e.1 = d.1 :=
            (List.idxOf_inj (hall.head_mem e (List.mem_append_left _ he))).mp heq
          have hnodup := hall.heads_nodup
          rw [List.map_append, List.nodup_append] at hnodup
          exact hnodup.2.2 e.1 (List.mem_map_of_mem he) d.1 (by simp) hsame
        have hstep : resolveDerivation nodes (done.map (placed nodes)) d =
            .ok ((done ++ [d]).map (placed nodes)) := by
          unfold resolveDerivation
          rw [nodeIn?_of_mem hhead]
          simp only [resolveBody_of_subset (hall.body_subset d hmem) (hall.no_self d hmem),
            hnew]
          rw [List.map_append]
          rfl
        rw [List.foldlM_cons, hstep]
        have hnext := ih (done ++ [d]) (by rwa [List.append_assoc])
        rwa [List.append_assoc] at hnext
  exact hrun derivations [] hderivations

/-- Building over names that resolve comes down to the roles of the nodes. -/
theorem build_of_resolvable (name : String) (hnodes : nodes.Nodup) {singletons : List String}
    {sums prods : List Derivation} (hsingletons : singletons ⊆ nodes)
    (hsums : Resolvable nodes sums) (hprods : Resolvable nodes prods) :
    build name nodes singletons sums prods =
      (do
        let g : CausalGraph α := ofNames name nodes singletons sums prods
        g.validate
        return g) := by
  unfold build
  dsimp only
  rw [Arrival.distinct_of_nodup hnodes, resolveSingletons_of_subset hsingletons,
    resolveDerivations_of_resolvable hsums, resolveDerivations_of_resolvable hprods]
  rfl

/-! ## Reading by names -/

def namesOf (g : CausalGraph α) (places : List Nat) : List String :=
  places.filterMap (fun id => g.nodes[id]?)

def sumNamed? (g : CausalGraph α) (node : String) : Option (List String) := do
  return g.namesOf (← g.sum? (← g.nodeId? node))

def prodNamed? (g : CausalGraph α) (node : String) : Option (List String) := do
  return g.namesOf (← g.prod? (← g.nodeId? node))

theorem idxOf_injOn {names : List String} (hsubset : names ⊆ nodes) :
    ∀ x ∈ names, ∀ y ∈ names, nodes.idxOf x = nodes.idxOf y → x = y := by
  intro x hx y _ heq
  exact (List.idxOf_inj (hsubset hx)).mp heq

theorem placesOf_eq {names : List String} (hsubset : names ⊆ nodes) :
    placesOf nodes names = (Arrival.distinct names).map nodes.idxOf :=
  Arrival.distinct_map (idxOf_injOn hsubset)

theorem getElem?_idxOf {node : String} (hnode : node ∈ nodes) :
    nodes[nodes.idxOf node]? = some node := by
  rw [List.getElem?_eq_getElem (List.idxOf_lt_length_of_mem hnode), List.getElem_idxOf]

theorem namesOf_placesOf {g : CausalGraph α} {names : List String} (hsubset : names ⊆ g.nodes) :
    g.namesOf (placesOf g.nodes names) = Arrival.distinct names := by
  have hdistinct : Arrival.distinct names ⊆ g.nodes := fun x hx =>
    hsubset (Arrival.mem_distinct.mp hx)
  unfold namesOf
  rw [placesOf_eq hsubset, List.filterMap_map]
  calc
    (Arrival.distinct names).filterMap ((fun id => g.nodes[id]?) ∘ g.nodes.idxOf) =
        (Arrival.distinct names).filterMap some := by
      apply List.filterMap_congr
      intro node hnode
      exact getElem?_idxOf (hdistinct hnode)
    _ = Arrival.distinct names := List.filterMap_some

theorem get?_map_placed {derivations : List Derivation}
    (hderivations : Resolvable nodes derivations) {node : String} {body : List String}
    (hmem : (node, body) ∈ derivations) :
    Arrival.get? (derivations.map (placed nodes)) (nodes.idxOf node) =
      some (placesOf nodes body) := by
  have hkeys : ((derivations.map (placed nodes)).map Prod.fst).Nodup := by
    have hheads : derivations.map Prod.fst ⊆ nodes := by
      intro head hhead
      obtain ⟨d, hd, rfl⟩ := List.mem_map.mp hhead
      exact hderivations.head_mem d hd
    have hplaces : (derivations.map (placed nodes)).map Prod.fst =
        (derivations.map Prod.fst).map nodes.idxOf := by
      rw [List.map_map, List.map_map]
      rfl
    rw [hplaces]
    exact hderivations.heads_nodup.map_on (idxOf_injOn hheads)
  rw [Arrival.get?_eq_some_iff hkeys]
  exact List.mem_map.mpr ⟨(node, body), hmem, rfl⟩

theorem idxOf_mem_map_placed {derivations : List Derivation}
    (hderivations : Resolvable nodes derivations) {node : String} :
    nodes.idxOf node ∈ (derivations.map (placed nodes)).map Prod.fst ↔
      node ∈ derivations.map Prod.fst := by
  rw [List.map_map]
  constructor
  · intro hmem
    obtain ⟨d, hd, heq⟩ := List.mem_map.mp hmem
    rw [← (List.idxOf_inj (hderivations.head_mem d hd)).mp heq]
    exact List.mem_map_of_mem hd
  · intro hmem
    obtain ⟨d, hd, rfl⟩ := List.mem_map.mp hmem
    exact List.mem_map.mpr ⟨d, hd, rfl⟩

theorem idxOf_mem_placesOf {names : List String} (hsubset : names ⊆ nodes) {node : String} :
    nodes.idxOf node ∈ placesOf nodes names ↔ node ∈ names := by
  rw [placesOf_eq hsubset]
  constructor
  · intro hmem
    obtain ⟨other, hother, heq⟩ := List.mem_map.mp hmem
    rw [Arrival.mem_distinct] at hother
    rwa [← (List.idxOf_inj (hsubset hother)).mp heq]
  · intro hmem
    exact List.mem_map_of_mem (Arrival.mem_distinct.mpr hmem)

/-- The roles of a node by its name. -/
theorem roleCount_ofNames {name : String} {singletons : List String} {sums prods : List Derivation}
    (hsingletons : singletons ⊆ nodes) (hsums : Resolvable nodes sums)
    (hprods : Resolvable nodes prods) (node : String) :
    (ofNames name nodes singletons sums prods : CausalGraph α).roleCount (nodes.idxOf node) =
      [decide (node ∈ singletons), decide (node ∈ sums.map Prod.fst),
        decide (node ∈ prods.map Prod.fst)].count true := by
  set g : CausalGraph α := ofNames name nodes singletons sums prods
  have hsingleton : g.isSingleton (nodes.idxOf node) = decide (node ∈ singletons) := by
    rw [Bool.eq_iff_iff, isSingleton_iff, decide_eq_true_iff]
    exact idxOf_mem_placesOf hsingletons
  have hsum : g.isSum (nodes.idxOf node) = decide (node ∈ sums.map Prod.fst) := by
    rw [Bool.eq_iff_iff, isSum_iff, decide_eq_true_iff]
    exact idxOf_mem_map_placed hsums
  have hprod : g.isProd (nodes.idxOf node) = decide (node ∈ prods.map Prod.fst) := by
    rw [Bool.eq_iff_iff, isProd_iff, decide_eq_true_iff]
    exact idxOf_mem_map_placed hprods
  unfold roleCount
  rw [hsingleton, hsum, hprod]

/-- When every node has a role, only a second role makes a graph invalid. -/
theorem validate_cases {g : CausalGraph α} (hroles : ∀ id < g.nodeCount, 1 ≤ g.roleCount id) :
    g.validate = .ok () ∨ ∃ id node, g.nodes[id]? = some node ∧ 2 ≤ g.roleCount id ∧
      g.validate = .error (.overlappedNode node) := by
  cases hvalid : g.validate with
  | ok _ => exact Or.inl rfl
  | error fault =>
      right
      obtain ⟨⟨node, id⟩, hentry, hcheck⟩ := exists_of_forM_eq_error hvalid
      have hnode := List.mem_zipIdx_iff_getElem?.mp hentry
      have hrole := hroles id (List.getElem?_eq_some_iff.mp hnode).1
      dsimp only at hcheck
      split at hcheck
      · rename_i hnone
        exact absurd hnone (Nat.one_le_iff_ne_zero.mp hrole)
      · cases hcheck
      · rename_i hnone hone
        cases hcheck
        refine ⟨id, node, hnode, ?_, rfl⟩
        exact Nat.succ_le_of_lt (lt_of_le_of_ne hrole (fun heq => hone heq.symm))

end CausalGraph

end DerivationBelief

import DerivationBelief.Proofs.ArrivalLookups
import DerivationBelief.Proofs.NamedGraph
import Mathlib.Tactic

/-!
# Which descriptions are built

A description names the nodes of a graph, possibly more than once, and refers to them by name.
Building resolves the names, which fails at a reference to no node, at a body with its own head and
at a head that is derived twice, and then counts the roles of the merged nodes.  So it succeeds
exactly for the well-formed descriptions, and the graph has every list of the description in order
and without repetitions.
-/

namespace DerivationBelief.CausalGraph

variable {α : Type} {nodes : List String}

/-! ## What is resolved -/

theorem mem_of_nodeIn? {node : String} {id : Nat} (hid : nodeIn? nodes node = some id) :
    node ∈ nodes :=
  (Arrival.position?_eq_some_iff.mp hid).1

theorem resolveSingletons_ok_iff {singletons : List String} :
    (∃ found, resolveSingletons nodes singletons = .ok found) ↔ singletons ⊆ nodes := by
  constructor
  · rintro ⟨found, hfound⟩ node hnode
    obtain ⟨before, after, hstep⟩ := exists_of_foldlM_eq_ok hfound node hnode
    cases hid : nodeIn? nodes node with
    | none =>
        rw [hid] at hstep
        cases hstep
    | some id => exact mem_of_nodeIn? hid
  · intro hsubset
    exact ⟨_, resolveSingletons_of_subset hsubset⟩

theorem resolveBody_ok_iff {head : String} {names : List String} :
    (∃ body, resolveBody nodes head (nodes.idxOf head) names = .ok body) ↔
      names ⊆ nodes ∧ head ∉ names := by
  constructor
  · rintro ⟨body, hbody⟩
    have hname : ∀ sub ∈ names, sub ∈ nodes ∧ sub ≠ head := by
      intro sub hsub
      obtain ⟨before, after, hstep⟩ := exists_of_foldlM_eq_ok hbody sub hsub
      cases hid : nodeIn? nodes sub with
      | none =>
          rw [hid] at hstep
          cases hstep
      | some id =>
          rw [hid] at hstep
          refine ⟨mem_of_nodeIn? hid, ?_⟩
          rintro rfl
          have hplace : id = nodes.idxOf sub := (Arrival.position?_eq_some_iff.mp hid).2
          simp [hplace] at hstep
    exact ⟨fun sub hsub => (hname sub hsub).1, fun hself => (hname head hself).2 rfl⟩
  · rintro ⟨hsubset, hself⟩
    exact ⟨_, resolveBody_of_subset hsubset hself⟩

/-- A derivation that is resolved is over the nodes, and its head is put behind the others. -/
theorem resolveDerivation_inversion {found next : List (Nat × List Nat)} {d : Derivation}
    (hnext : resolveDerivation nodes found d = .ok next) :
    d.1 ∈ nodes ∧ d.2 ⊆ nodes ∧ d.1 ∉ d.2 ∧
      next.map Prod.fst = found.map Prod.fst ++ [nodes.idxOf d.1] := by
  unfold resolveDerivation at hnext
  cases hid : nodeIn? nodes d.1 with
  | none =>
      rw [hid] at hnext
      cases hnext
  | some headId =>
      obtain ⟨hhead, rfl⟩ := Arrival.position?_eq_some_iff.mp hid
      rw [hid] at hnext
      obtain ⟨body, hbody, hnext⟩ := bind_eq_ok_iff.mp hnext
      obtain ⟨hsubset, hself⟩ := resolveBody_ok_iff.mp ⟨body, hbody⟩
      refine ⟨hhead, hsubset, hself, ?_⟩
      split at hnext
      · cases hnext
      · cases hnext
        exact List.map_append

theorem heads_of_resolveDerivations {derivations : List Derivation}
    {start found : List (Nat × List Nat)}
    (hfound : derivations.foldlM (resolveDerivation nodes) start = .ok found) :
    found.map Prod.fst =
      start.map Prod.fst ++ derivations.map (fun d => nodes.idxOf d.1) := by
  induction derivations generalizing start with
  | nil =>
      cases hfound
      simp
  | cons d derivations ih =>
      obtain ⟨next, hnext, hrest⟩ := foldlM_cons_eq_ok_iff.mp hfound
      rw [ih hrest, (resolveDerivation_inversion hnext).2.2.2, List.append_assoc]
      rfl

theorem resolveDerivations_ok_iff {derivations : List Derivation} :
    (∃ found, resolveDerivations nodes derivations = .ok found) ↔
      Resolvable nodes derivations := by
  constructor
  · rintro ⟨found, hfound⟩
    have hstep : ∀ d ∈ derivations, d.1 ∈ nodes ∧ d.2 ⊆ nodes ∧ d.1 ∉ d.2 := by
      intro d hd
      obtain ⟨before, after, hafter⟩ := exists_of_foldlM_eq_ok hfound d hd
      obtain ⟨hhead, hsubset, hself, _⟩ := resolveDerivation_inversion hafter
      exact ⟨hhead, hsubset, hself⟩
    have hplaces : ((derivations.map Prod.fst).map nodes.idxOf).Nodup := by
      have hnodup := (resolveDerivations_ok hfound).heads_nodup
      rw [heads_of_resolveDerivations hfound] at hnodup
      rwa [List.map_map]
    constructor
    case heads_nodup => exact hplaces.of_map _
    case head_mem => exact fun d hd => (hstep d hd).1
    case body_subset => exact fun d hd => (hstep d hd).2.1
    case no_self => exact fun d hd => (hstep d hd).2.2
  · intro hresolvable
    exact ⟨_, resolveDerivations_of_resolvable hresolvable⟩

/-! ## Roles -/

/-- The name is used in exactly one of the three roles. -/
def OneRole (singletons : List String) (sums prods : List Derivation) (node : String) : Prop :=
  (node ∈ singletons ∧ node ∉ sums.map Prod.fst ∧ node ∉ prods.map Prod.fst) ∨
    (node ∉ singletons ∧ node ∈ sums.map Prod.fst ∧ node ∉ prods.map Prod.fst) ∨
    (node ∉ singletons ∧ node ∉ sums.map Prod.fst ∧ node ∈ prods.map Prod.fst)

section Roles

variable (name : String) {singletons : List String} {sums prods : List Derivation}
  (hsingletons : singletons ⊆ nodes) (hsums : Resolvable nodes sums)
  (hprods : Resolvable nodes prods)

include hsingletons hsums hprods

theorem roleCount_eq_one_iff (node : String) :
    (ofNames name nodes singletons sums prods : CausalGraph α).roleCount (nodes.idxOf node) = 1 ↔
      OneRole singletons sums prods node := by
  rw [roleCount_ofNames hsingletons hsums hprods]
  unfold OneRole
  by_cases hsingleton : node ∈ singletons <;> by_cases hsum : node ∈ sums.map Prod.fst <;>
    by_cases hprod : node ∈ prods.map Prod.fst <;> simp [hsingleton, hsum, hprod]

theorem validate_ofNames_iff (hnodes : nodes.Nodup) :
    (ofNames name nodes singletons sums prods : CausalGraph α).validate = .ok () ↔
      ∀ node ∈ nodes, OneRole singletons sums prods node := by
  rw [validate_ok_iff]
  constructor
  · intro hroles node hnode
    rw [← roleCount_eq_one_iff (α := α) name hsingletons hsums hprods]
    exact hroles _ (List.idxOf_lt_length_of_mem hnode)
  · intro hroles id hid
    have hlt : id < nodes.length := hid
    have hrole := (roleCount_eq_one_iff (α := α) name hsingletons hsums hprods _).mpr
      (hroles nodes[id] (List.getElem_mem hlt))
    rwa [hnodes.idxOf_getElem id hlt] at hrole

end Roles

/-! ## What is built -/

/-- All references of the description are to nodes, no body has its own head, no two sums and no two
products have the same head, and every node has one role. -/
structure WellDescribed (nodes singletons : List String) (sums prods : List Derivation) : Prop where
  singletons_subset : singletons ⊆ nodes
  sums_resolvable : Resolvable nodes sums
  prods_resolvable : Resolvable nodes prods
  one_role : ∀ node ∈ nodes, OneRole singletons sums prods node

/-- The graph numbers the nodes by their first occurrences and has the derivations in the order of
the description, their bodies resolved without repetitions.  It has no priors. -/
structure BuiltFrom (name : String) (nodes singletons : List String) (sums prods : List Derivation)
    (g : CausalGraph α) : Prop where
  name_eq : g.name = name
  nodes_eq : g.nodes = nodes.eraseDups
  nodeId?_iff : ∀ node id, g.nodeId? node = some id ↔ nodes.eraseDups[id]? = some node
  singletons_eq : g.singletons = singletons.eraseDups.map nodes.eraseDups.idxOf
  sums_eq : g.sums = sums.map (fun d =>
    (nodes.eraseDups.idxOf d.1, d.2.eraseDups.map nodes.eraseDups.idxOf))
  prods_eq : g.prods = prods.map (fun d =>
    (nodes.eraseDups.idxOf d.1, d.2.eraseDups.map nodes.eraseDups.idxOf))
  dists_eq : g.dists = []
  stochastic_eq : g.stochastic = []

variable {name : String} {singletons : List String} {sums prods : List Derivation}

theorem Resolvable.mono {derivations : List Derivation} {others : List String}
    (hresolvable : Resolvable nodes derivations) (hsubset : nodes ⊆ others) :
    Resolvable others derivations where
  heads_nodup := hresolvable.heads_nodup
  head_mem := fun d hd => hsubset (hresolvable.head_mem d hd)
  body_subset := fun d hd _ hnode => hsubset (hresolvable.body_subset d hd hnode)
  no_self := hresolvable.no_self

theorem WellDescribed.of_mem_iff {others : List String}
    (hdescribed : WellDescribed nodes singletons sums prods)
    (hmem : ∀ node, node ∈ nodes ↔ node ∈ others) : WellDescribed others singletons sums prods where
  singletons_subset := fun node hnode => (hmem node).mp (hdescribed.singletons_subset hnode)
  sums_resolvable := hdescribed.sums_resolvable.mono (fun node hnode => (hmem node).mp hnode)
  prods_resolvable := hdescribed.prods_resolvable.mono (fun node hnode => (hmem node).mp hnode)
  one_role := fun node hnode => hdescribed.one_role node ((hmem node).mpr hnode)

/-- Repeated names are merged before anything else. -/
theorem build_eraseDups :
    (build name nodes.eraseDups singletons sums prods : Except GraphFault (CausalGraph α)) =
      build name nodes singletons sums prods := by
  unfold build
  rw [Arrival.distinct_of_nodup (Arrival.eraseDups_nodup nodes), Arrival.distinct_eq_eraseDups]

/-- Over nodes that are listed once, building succeeds exactly when the description is well formed,
and then with the graph that the names describe. -/
theorem build_eq_ok_iff (hnodes : nodes.Nodup) {g : CausalGraph α} :
    build name nodes singletons sums prods = .ok g ↔
      WellDescribed nodes singletons sums prods ∧
        g = ofNames name nodes singletons sums prods := by
  constructor
  · intro hg
    have hfound := hg
    unfold build at hfound
    rw [Arrival.distinct_of_nodup hnodes] at hfound
    obtain ⟨found, hsingletonsFound, hfound⟩ := bind_eq_ok_iff.mp hfound
    obtain ⟨sumsFound, hsumsFound, hfound⟩ := bind_eq_ok_iff.mp hfound
    obtain ⟨prodsFound, hprodsFound, _⟩ := bind_eq_ok_iff.mp hfound
    have hsingletons := resolveSingletons_ok_iff.mp ⟨found, hsingletonsFound⟩
    have hsums := resolveDerivations_ok_iff.mp ⟨sumsFound, hsumsFound⟩
    have hprods := resolveDerivations_ok_iff.mp ⟨prodsFound, hprodsFound⟩
    rw [build_of_resolvable name hnodes hsingletons hsums hprods] at hg
    obtain ⟨_, hvalid, hg⟩ := bind_eq_ok_iff.mp hg
    cases hg
    exact ⟨⟨hsingletons, hsums, hprods,
      (validate_ofNames_iff name hsingletons hsums hprods hnodes).mp hvalid⟩, rfl⟩
  · rintro ⟨hdescribed, rfl⟩
    rw [build_of_resolvable name hnodes hdescribed.singletons_subset hdescribed.sums_resolvable
      hdescribed.prods_resolvable]
    exact bind_eq_ok_iff.mpr ⟨(), (validate_ofNames_iff name hdescribed.singletons_subset
      hdescribed.sums_resolvable hdescribed.prods_resolvable hnodes).mpr hdescribed.one_role, rfl⟩

theorem map_placed {derivations : List Derivation} (hderivations : Resolvable nodes derivations) :
    derivations.map (placed nodes) =
      derivations.map (fun d => (nodes.idxOf d.1, d.2.eraseDups.map nodes.idxOf)) := by
  apply List.map_congr_left
  intro d hd
  rw [placed, placesOf_eq (hderivations.body_subset d hd), Arrival.distinct_eq_eraseDups]

theorem WellDescribed.ofNames_builtFrom
    (hdescribed : WellDescribed nodes.eraseDups singletons sums prods) :
    (ofNames name nodes.eraseDups singletons sums prods : CausalGraph α).BuiltFrom name nodes
      singletons sums prods := by
  have hnodes := Arrival.eraseDups_nodup nodes
  constructor
  case name_eq => rfl
  case nodes_eq => rfl
  case nodeId?_iff =>
    intro node id
    constructor
    · intro hid
      obtain ⟨hnode, rfl⟩ := Arrival.position?_eq_some_iff.mp hid
      exact getElem?_idxOf hnode
    · intro hnode
      obtain ⟨hlt, rfl⟩ := List.getElem?_eq_some_iff.mp hnode
      exact Arrival.position?_eq_some_iff.mpr
        ⟨List.getElem_mem hlt, (hnodes.idxOf_getElem id hlt).symm⟩
  case singletons_eq =>
    rw [← Arrival.distinct_eq_eraseDups singletons]
    exact placesOf_eq hdescribed.singletons_subset
  case sums_eq => exact map_placed hdescribed.sums_resolvable
  case prods_eq => exact map_placed hdescribed.prods_resolvable
  case dists_eq => rfl
  case stochastic_eq => rfl

/-- A description is built exactly when it is well formed, and then the graph is what it describes:
nodes are numbered by first occurrences, and sums, products and bodies keep their order. -/
theorem built_iff_wellDescribed (name : String) (nodes singletons : List String)
    (sums prods : List Derivation) :
    ((∃ g : CausalGraph α, build name nodes singletons sums prods = .ok g) ↔
        WellDescribed nodes singletons sums prods) ∧
      ∀ g : CausalGraph α, build name nodes singletons sums prods = .ok g →
        g.BuiltFrom name nodes singletons sums prods := by
  have hmem : ∀ node, node ∈ nodes.eraseDups ↔ node ∈ nodes := fun _ => List.mem_eraseDups
  rw [← build_eraseDups]
  simp only [build_eq_ok_iff (Arrival.eraseDups_nodup nodes)]
  refine ⟨⟨?_, ?_⟩, ?_⟩
  · rintro ⟨g, hdescribed, _⟩
    exact hdescribed.of_mem_iff hmem
  · intro hdescribed
    exact ⟨_, hdescribed.of_mem_iff (fun node => (hmem node).symm), rfl⟩
  · rintro g ⟨hdescribed, rfl⟩
    exact hdescribed.ofNames_builtFrom

/-! ## A street with repeated names -/

/-- The street slips when it is wet after rain; some names are given twice. -/
theorem slipperyStreet_built :
    WellDescribed ["rain", "wet", "rain", "slip"] ["rain", "rain"]
        [("wet", ["rain", "rain"])] [("slip", ["wet", "rain", "wet"])] ∧
      ∃ g : CausalGraph ℚ, build "street" ["rain", "wet", "rain", "slip"] ["rain", "rain"]
          [("wet", ["rain", "rain"])] [("slip", ["wet", "rain", "wet"])] = .ok g ∧
        g.nodes = ["rain", "wet", "slip"] ∧ g.singletons = [0] ∧ g.sums = [(1, [0])] ∧
        g.prods = [(2, [1, 0])] := by
  have hdescribed : WellDescribed ["rain", "wet", "rain", "slip"] ["rain", "rain"]
      [("wet", ["rain", "rain"])] [("slip", ["wet", "rain", "wet"])] := by
    refine ⟨by decide, ⟨by decide, by decide, by decide, by decide⟩,
      ⟨by decide, by decide, by decide, by decide⟩, ?_⟩
    unfold OneRole
    decide
  obtain ⟨hiff, hbuilt⟩ := built_iff_wellDescribed (α := ℚ) "street"
    ["rain", "wet", "rain", "slip"] ["rain", "rain"] [("wet", ["rain", "rain"])]
    [("slip", ["wet", "rain", "wet"])]
  obtain ⟨g, hg⟩ := hiff.mpr hdescribed
  have hgraph := hbuilt g hg
  exact ⟨hdescribed, g, hg, hgraph.nodes_eq.trans (by decide), hgraph.singletons_eq.trans (by decide),
    hgraph.sums_eq.trans (by decide), hgraph.prods_eq.trans (by decide)⟩

end DerivationBelief.CausalGraph

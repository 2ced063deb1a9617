import DerivationBelief.PriorTable
import DerivationBelief.Proofs.ArrivalOrder
import DerivationBelief.Proofs.FaultyRuns
import Mathlib.Tactic

/-!
# Coherent graphs

Every graph that is built and edited by the operations of the library refers only to nodes and
distributions that it has, derives no node twice in the same way and has no node in its own body.
When it also validates, every node is a singleton, a sum or a product, and only one of them.
-/

namespace DerivationBelief

namespace CausalGraph

variable {α : Type}

/-! ## Derivations -/

/-- A body of a head refers to nodes, without repetitions and without the head. -/
structure BodyOver (count head : Nat) (body : List Nat) : Prop where
  nodup : body.Nodup
  lt : ∀ b ∈ body, b < count
  no_self : head ∉ body

/-- Heads are different nodes, and their bodies are over the nodes. -/
structure DerivationsOver (count : Nat) (derivations : List (Nat × List Nat)) : Prop where
  heads_nodup : (derivations.map Prod.fst).Nodup
  head_lt : ∀ d ∈ derivations, d.1 < count
  body : ∀ d ∈ derivations, BodyOver count d.1 d.2

theorem BodyOver.nil (count head : Nat) : BodyOver count head [] where
  nodup := List.nodup_nil
  lt := by simp
  no_self := List.not_mem_nil

theorem BodyOver.insert {count head b : Nat} {body : List Nat} (hbody : BodyOver count head body)
    (hlt : b < count) (hne : b ≠ head) : BodyOver count head (Arrival.insert body b) where
  nodup := Arrival.insert_nodup hbody.nodup b
  lt := by
    intro c hc
    rcases Arrival.mem_insert.mp hc with hold | rfl
    · exact hbody.lt c hold
    · exact hlt
  no_self := by
    intro hmem
    rcases Arrival.mem_insert.mp hmem with hold | heq
    · exact hbody.no_self hold
    · exact hne heq.symm

theorem BodyOver.mono {count more head : Nat} {body : List Nat} (hbody : BodyOver count head body)
    (hle : count ≤ more) : BodyOver more head body where
  nodup := hbody.nodup
  lt := fun b hb => (hbody.lt b hb).trans_le hle
  no_self := hbody.no_self

theorem DerivationsOver.nil (count : Nat) : DerivationsOver count [] where
  heads_nodup := List.nodup_nil
  head_lt := by simp
  body := by simp

theorem DerivationsOver.mono {count more : Nat} {derivations : List (Nat × List Nat)}
    (hderivations : DerivationsOver count derivations) (hle : count ≤ more) :
    DerivationsOver more derivations where
  heads_nodup := hderivations.heads_nodup
  head_lt := fun d hd => (hderivations.head_lt d hd).trans_le hle
  body := fun d hd => (hderivations.body d hd).mono hle

theorem DerivationsOver.put {count head : Nat} {body : List Nat}
    {derivations : List (Nat × List Nat)} (hderivations : DerivationsOver count derivations)
    (hhead : head < count) (hbody : BodyOver count head body) :
    DerivationsOver count (Arrival.put derivations head body) where
  heads_nodup := by
    rw [Arrival.keys_put]
    exact Arrival.insert_nodup hderivations.heads_nodup head
  head_lt := by
    intro d hd
    rcases Arrival.mem_put hd with hold | rfl
    · exact hderivations.head_lt d hold
    · exact hhead
  body := by
    intro d hd
    rcases Arrival.mem_put hd with hold | rfl
    · exact hderivations.body d hold
    · exact hbody

/-! ## Resolving names -/

theorem nodeIn?_lt {nodes : List String} {node : String} {id : Nat}
    (hid : nodeIn? nodes node = some id) : id < nodes.length := by
  obtain ⟨hmem, rfl⟩ := Arrival.position?_eq_some_iff.mp hid
  exact List.idxOf_lt_length_of_mem hmem

theorem resolveSingletons_ok {nodes singletons : List String} {found : List Nat}
    (hfound : resolveSingletons nodes singletons = .ok found) :
    found.Nodup ∧ ∀ s ∈ found, s < nodes.length := by
  apply foldlM_keeps (fun found => found.Nodup ∧ ∀ s ∈ found, s < nodes.length) _
    ⟨List.nodup_nil, by simp⟩ hfound
  rintro found node next ⟨hnodup, hlt⟩ hnext
  cases hid : nodeIn? nodes node with
  | none =>
      rw [hid] at hnext
      cases hnext
  | some id =>
      rw [hid] at hnext
      cases hnext
      refine ⟨Arrival.insert_nodup hnodup id, ?_⟩
      intro s hs
      rcases Arrival.mem_insert.mp hs with hold | rfl
      · exact hlt s hold
      · exact nodeIn?_lt hid

theorem resolveBody_ok {nodes : List String} {head : String} {headId : Nat} {names : List String}
    {body : List Nat} (hbody : resolveBody nodes head headId names = .ok body) :
    BodyOver nodes.length headId body := by
  apply foldlM_keeps (BodyOver nodes.length headId) _ (BodyOver.nil _ _) hbody
  intro found sub next hkeeps hnext
  cases hid : nodeIn? nodes sub with
  | none =>
      rw [hid] at hnext
      cases hnext
  | some id =>
      rw [hid] at hnext
      dsimp only at hnext
      split at hnext
      · cases hnext
      · rename_i hne
        cases hnext
        exact hkeeps.insert (nodeIn?_lt hid) hne

theorem resolveDerivations_ok {nodes : List String} {named : List Derivation}
    {derivations : List (Nat × List Nat)}
    (hderivations : resolveDerivations nodes named = .ok derivations) :
    DerivationsOver nodes.length derivations := by
  apply foldlM_keeps (DerivationsOver nodes.length) _ (DerivationsOver.nil _) hderivations
  intro found d next hkeeps hnext
  unfold resolveDerivation at hnext
  cases hid : nodeIn? nodes d.1 with
  | none =>
      rw [hid] at hnext
      cases hnext
  | some headId =>
      rw [hid] at hnext
      obtain ⟨body, hbody, hnext⟩ := bind_eq_ok_iff.mp hnext
      split at hnext
      · cases hnext
      · rename_i hnew
        cases hnext
        have houtside : headId ∉ found.map Prod.fst := by
          rw [← Arrival.get?_eq_none_iff]
          simpa [Arrival.hasKey] using hnew
        refine ⟨?_, ?_, ?_⟩
        · rw [List.map_append, List.map_singleton, List.nodup_append]
          refine ⟨hkeeps.heads_nodup, List.nodup_singleton _, ?_⟩
          rintro h hh k hk rfl
          rw [List.mem_singleton.mp hk] at hh
          exact houtside hh
        · rw [List.forall_mem_append, List.forall_mem_singleton]
          exact ⟨hkeeps.head_lt, nodeIn?_lt hid⟩
        · rw [List.forall_mem_append, List.forall_mem_singleton]
          exact ⟨hkeeps.body, resolveBody_ok hbody⟩

theorem checkBody_ok {g : CausalGraph α} {head : Nat} {numbers body : List Nat}
    (hbody : g.checkBody head numbers = .ok body) :
    head < g.nodeCount ∧ BodyOver g.nodeCount head body := by
  unfold checkBody at hbody
  split at hbody
  · cases hbody
  · rename_i hhead
    refine ⟨Nat.lt_of_not_le hhead, ?_⟩
    apply foldlM_keeps (BodyOver g.nodeCount head) _ (BodyOver.nil _ _) hbody
    intro found sub next hkeeps hnext
    split at hnext
    · cases hnext
    · rename_i hsub
      split at hnext
      · cases hnext
      · rename_i hne
        cases hnext
        exact hkeeps.insert (Nat.lt_of_not_le hsub) hne

/-! ## Coherence -/

/-- All references of a graph are to what it has, and each is made once. -/
structure Coherent (g : CausalGraph α) : Prop where
  nodes_nodup : g.nodes.Nodup
  singletons_nodup : g.singletons.Nodup
  singletons_lt : ∀ s ∈ g.singletons, s < g.nodeCount
  sums : DerivationsOver g.nodeCount g.sums
  prods : DerivationsOver g.nodeCount g.prods
  stochastic_nodup : (g.stochastic.map Prod.fst).Nodup
  stochastic_lt : ∀ entry ∈ g.stochastic, entry.1 < g.nodeCount ∧ entry.2 < g.distCount

/-- Graphs that are built and edited by the operations of the library. -/
inductive Constructed : CausalGraph α → Prop
  | build {name : String} {nodes singletons : List String} {sums prods : List Derivation}
      {g : CausalGraph α} : CausalGraph.build name nodes singletons sums prods = .ok g →
      Constructed g
  | withName {g : CausalGraph α} (name : String) : Constructed g → Constructed (g.withName name)
  | addNode {g : CausalGraph α} (node : String) : Constructed g → Constructed (g.addNode node).1
  | setSum {g next : CausalGraph α} {head : Nat} {body : List Nat} : Constructed g →
      g.setSum head body = .ok next → Constructed next
  | setProd {g next : CausalGraph α} {head : Nat} {body : List Nat} : Constructed g →
      g.setProd head body = .ok next → Constructed next
  | setPrior {g : CausalGraph α} (node : String) (d : Distribution α) : Constructed g →
      Constructed (g.setPrior node d).1
  | tie {g next : CausalGraph α} {node dist : Nat} : Constructed g →
      g.tie node dist = .ok next → Constructed next
  | applyPriors {g : CausalGraph α} (table : PriorTable α) : Constructed g →
      Constructed (g.applyPriors table)
  | forgetPriors {g : CausalGraph α} : Constructed g → Constructed g.forgetPriors
  | setDist {g : CausalGraph α} (dist : Nat) (d : Distribution α) : Constructed g →
      Constructed (g.setDist dist d)

theorem build_coherent {name : String} {nodes singletons : List String}
    {sums prods : List Derivation} {g : CausalGraph α}
    (hg : CausalGraph.build name nodes singletons sums prods = .ok g) : g.Coherent := by
  unfold CausalGraph.build at hg
  obtain ⟨found, hfound, hg⟩ := bind_eq_ok_iff.mp hg
  obtain ⟨sumsFound, hsums, hg⟩ := bind_eq_ok_iff.mp hg
  obtain ⟨prodsFound, hprods, hg⟩ := bind_eq_ok_iff.mp hg
  obtain ⟨_, _, hg⟩ := bind_eq_ok_iff.mp hg
  cases hg
  exact {
    nodes_nodup := Arrival.distinct_nodup nodes
    singletons_nodup := (resolveSingletons_ok hfound).1
    singletons_lt := (resolveSingletons_ok hfound).2
    sums := resolveDerivations_ok hsums
    prods := resolveDerivations_ok hprods
    stochastic_nodup := List.nodup_nil
    stochastic_lt := by simp }

theorem Coherent.refer {g : CausalGraph α} (hg : g.Coherent) (more : List (Distribution α))
    {node dist : Nat} (hnode : node < g.nodeCount) (hdist : dist < (g.dists ++ more).length) :
    ({ g with
        dists := g.dists ++ more
        stochastic := Arrival.put g.stochastic node dist } : CausalGraph α).Coherent :=
  { hg with
    stochastic_nodup := by
      rw [Arrival.keys_put]
      exact Arrival.insert_nodup hg.stochastic_nodup node
    stochastic_lt := by
      intro entry hentry
      rcases Arrival.mem_put hentry with hold | rfl
      · refine ⟨(hg.stochastic_lt entry hold).1, ?_⟩
        have hlt := (hg.stochastic_lt entry hold).2
        unfold distCount at hlt ⊢
        dsimp only
        rw [List.length_append]
        omega
      · exact ⟨hnode, hdist⟩ }

theorem Coherent.addNode {g : CausalGraph α} (hg : g.Coherent) (node : String) :
    (g.addNode node).1.Coherent := by
  have hle : g.nodeCount ≤ (g.addNode node).1.nodeCount := by
    unfold CausalGraph.addNode nodeCount Arrival.insert
    dsimp only
    split <;> simp
  exact {
    nodes_nodup := Arrival.insert_nodup hg.nodes_nodup node
    singletons_nodup := hg.singletons_nodup
    singletons_lt := fun s hs => (hg.singletons_lt s hs).trans_le hle
    sums := hg.sums.mono hle
    prods := hg.prods.mono hle
    stochastic_nodup := hg.stochastic_nodup
    stochastic_lt := fun entry hentry =>
      ⟨(hg.stochastic_lt entry hentry).1.trans_le hle, (hg.stochastic_lt entry hentry).2⟩ }

theorem Coherent.assign {s : Applying α} (hs : s.graph.Coherent)
    (hentered : ∀ entry ∈ s.entered, entry.2 < s.graph.distCount) (dists : List (Distribution α))
    (entry : String × Nat) :
    (s.assign dists entry).graph.Coherent ∧
      ∀ e ∈ (s.assign dists entry).entered, e.2 < (s.assign dists entry).graph.distCount := by
  unfold Applying.assign
  cases hnode : s.graph.nodeId? entry.1 with
  | none => exact ⟨hs, hentered⟩
  | some node =>
      have hlt : node < s.graph.nodeCount := nodeIn?_lt hnode
      cases hget : Arrival.get? s.entered entry.2 with
      | some id =>
          have hid := hentered _ (Arrival.mem_of_get? hget)
          have hrefer := hs.refer [] hlt (by simpa [distCount] using hid)
          rw [List.append_nil] at hrefer
          exact ⟨hrefer, hentered⟩
      | none =>
          cases dists[entry.2]? with
          | none => exact ⟨hs, hentered⟩
          | some d =>
              refine ⟨hs.refer [d] hlt (by simp [distCount]), ?_⟩
              intro e he
              unfold distCount
              dsimp only
              rw [List.length_append, List.length_singleton]
              rcases Arrival.mem_put he with hold | rfl
              · exact (hentered e hold).trans (Nat.lt_succ_self _)
              · exact Nat.lt_succ_self _

theorem Coherent.applyPriors {g : CausalGraph α} (hg : g.Coherent) (table : PriorTable α) :
    (g.applyPriors table).Coherent := by
  have hkeeps : ∀ (assignments : List (String × Nat)) (s : Applying α), s.graph.Coherent →
      (∀ entry ∈ s.entered, entry.2 < s.graph.distCount) →
      (assignments.foldl (Applying.assign table.dists) s).graph.Coherent := by
    intro assignments
    induction assignments with
    | nil => exact fun s hs _ => hs
    | cons entry assignments ih =>
        intro s hs hentered
        obtain ⟨hnext, hnextEntered⟩ := hs.assign hentered table.dists entry
        exact ih _ hnext hnextEntered
  exact hkeeps table.assignments ⟨g, []⟩ hg (by simp)

/-- Whatever is built and edited is coherent. -/
theorem Constructed.coherent {g : CausalGraph α} (hg : Constructed g) : g.Coherent := by
  induction hg with
  | build hbuild => exact build_coherent hbuild
  | withName name _ ih => exact { ih with }
  | addNode node _ ih => exact ih.addNode node
  | setSum _ hnext ih =>
      obtain ⟨body, hbody, hnext⟩ := bind_eq_ok_iff.mp hnext
      cases hnext
      obtain ⟨hhead, hover⟩ := checkBody_ok hbody
      exact { ih with sums := ih.sums.put hhead hover }
  | setProd _ hnext ih =>
      obtain ⟨body, hbody, hnext⟩ := bind_eq_ok_iff.mp hnext
      cases hnext
      obtain ⟨hhead, hover⟩ := checkBody_ok hbody
      exact { ih with prods := ih.prods.put hhead hover }
  | @setPrior g node d _ ih =>
      unfold CausalGraph.setPrior
      cases hnode : g.nodeId? node with
      | none => exact ih
      | some id => exact ih.refer [d] (nodeIn?_lt hnode) (by simp [distCount])
  | @tie g next node dist _ hnext ih =>
      unfold CausalGraph.tie at hnext
      split at hnext
      · cases hnext
      · rename_i hnode
        split at hnext
        · cases hnext
        · rename_i hdist
          cases hnext
          have hrefer := ih.refer [] (Nat.lt_of_not_le hnode)
            (by simpa [distCount] using Nat.lt_of_not_le hdist)
          rwa [List.append_nil] at hrefer
  | applyPriors table _ ih => exact ih.applyPriors table
  | forgetPriors _ ih =>
      exact { ih with
        stochastic_nodup := List.nodup_nil
        stochastic_lt := fun _ hentry => absurd hentry List.not_mem_nil }
  | setDist dist d _ ih =>
      refine { ih with stochastic_lt := ?_ }
      intro entry hentry
      have hlt := ih.stochastic_lt entry hentry
      unfold CausalGraph.setDist distCount at *
      rwa [List.length_set]

/-! ## Roles -/

theorem isSingleton_iff {g : CausalGraph α} {id : Nat} :
    g.isSingleton id = true ↔ id ∈ g.singletons :=
  List.contains_iff_mem

theorem isSum_iff {g : CausalGraph α} {id : Nat} :
    g.isSum id = true ↔ id ∈ g.sums.map Prod.fst := by
  unfold isSum sum?
  rw [Option.isSome_iff_ne_none, Ne, Arrival.get?_eq_none_iff, not_not]

theorem isProd_iff {g : CausalGraph α} {id : Nat} :
    g.isProd id = true ↔ id ∈ g.prods.map Prod.fst := by
  unfold isProd prod?
  rw [Option.isSome_iff_ne_none, Ne, Arrival.get?_eq_none_iff, not_not]

theorem validate_ok_iff {g : CausalGraph α} :
    g.validate = .ok () ↔ ∀ id < g.nodeCount, g.roleCount id = 1 := by
  unfold validate
  rw [forM_eq_ok_iff]
  constructor
  · intro hall id hid
    have hcheck := hall (g.nodes[id], id) (List.mem_zipIdx_iff_getElem?.mpr
      (List.getElem?_eq_getElem hid))
    dsimp only at hcheck
    split at hcheck
    · cases hcheck
    · assumption
    · cases hcheck
  · rintro hall ⟨node, id⟩ hentry
    have hid : id < g.nodeCount := List.snd_lt_of_mem_zipIdx hentry
    simp only [hall id hid]

/-- A node of a validated graph is a singleton, a sum or a product, and only one of them. -/
theorem roles_of_validate {g : CausalGraph α} (hvalid : g.validate = .ok ()) {id : Nat}
    (hid : id < g.nodeCount) :
    (id ∈ g.singletons ∧ id ∉ g.sums.map Prod.fst ∧ id ∉ g.prods.map Prod.fst) ∨
      (id ∉ g.singletons ∧ id ∈ g.sums.map Prod.fst ∧ id ∉ g.prods.map Prod.fst) ∨
      (id ∉ g.singletons ∧ id ∉ g.sums.map Prod.fst ∧ id ∈ g.prods.map Prod.fst) := by
  have hcount := validate_ok_iff.mp hvalid id hid
  unfold roleCount at hcount
  rw [← isSingleton_iff, ← isSum_iff, ← isProd_iff]
  revert hcount
  cases g.isSingleton id <;> cases g.isSum id <;> cases g.isProd id <;> decide

/-- The nodes of a coherent and validated graph by their roles. -/
theorem Coherent.roles_perm {g : CausalGraph α} (hg : g.Coherent)
    (hvalid : g.validate = .ok ()) :
    (g.sums.map Prod.fst ++ (g.prods.map Prod.fst ++ g.singletons)).Perm
      (List.range g.nodeCount) := by
  have hsum_lt : ∀ id ∈ g.sums.map Prod.fst, id < g.nodeCount := by
    intro id hid
    obtain ⟨d, hd, rfl⟩ := List.mem_map.mp hid
    exact hg.sums.head_lt d hd
  have hprod_lt : ∀ id ∈ g.prods.map Prod.fst, id < g.nodeCount := by
    intro id hid
    obtain ⟨d, hd, rfl⟩ := List.mem_map.mp hid
    exact hg.prods.head_lt d hd
  rw [List.perm_ext_iff_of_nodup _ List.nodup_range]
  · intro id
    rw [List.mem_append, List.mem_append, List.mem_range]
    constructor
    · rintro (hsum | hprod | hsingleton)
      · exact hsum_lt id hsum
      · exact hprod_lt id hprod
      · exact hg.singletons_lt id hsingleton
    · intro hid
      have hroles := roles_of_validate hvalid hid
      tauto
  · rw [List.nodup_append, List.nodup_append]
    refine ⟨hg.sums.heads_nodup, ⟨hg.prods.heads_nodup, hg.singletons_nodup, ?_⟩, ?_⟩
    · rintro id hprod other hsingleton rfl
      have hroles := roles_of_validate hvalid (hprod_lt id hprod)
      tauto
    · rintro id hsum other hother rfl
      have hroles := roles_of_validate hvalid (hsum_lt id hsum)
      rw [List.mem_append] at hother
      tauto

end CausalGraph

end DerivationBelief

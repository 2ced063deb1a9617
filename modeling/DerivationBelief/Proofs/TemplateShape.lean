import DerivationBelief.FactorGraph
import DerivationBelief.Proofs.CoherentGraph
import DerivationBelief.Proofs.PhonyDecomposition
import Mathlib.Tactic

/-!
# The parts of a replica and the factors that they own

A replica consists of its nodes, the latent variables of the Bayesian mode and the phony nodes of
split bodies.  Lowering a graph that validates gives each of these parts one factor, which starts
with the variable of the part.  What follows is the parameter that the part draws from, or the
control and the body of a derivation, so the factor mentions no other replica.

Nothing here depends on the arithmetic, so it holds for machine numbers as well.
-/

namespace DerivationBelief

/-- What a variable of a replica stands for. -/
inductive ReplicaPart where
  | node (n : Nat)
  | latent (n : Nat)
  | phony (place : Nat)
deriving DecidableEq

/-- The variables of the parameters and of the parts of one replica. -/
structure Numbering (ν : Type) where
  parameter : Nat → ν
  part : ReplicaPart → ν

namespace CausalGraph

variable {α : Type}

def derivationsOf (g : CausalGraph α) : Connective → List (Nat × List Nat)
  | .any => g.sums
  | .all => g.prods

theorem Coherent.derivationsOver {g : CausalGraph α} (hg : g.Coherent)
    (connective : Connective) : DerivationsOver g.nodeCount (g.derivationsOf connective) := by
  cases connective with
  | any => exact hg.sums
  | all => exact hg.prods

theorem not_singleton_of_derivation {g : CausalGraph α} (hg : g.Coherent)
    (hvalid : g.validate = .ok ()) {connective : Connective} {d : Nat × List Nat}
    (hd : d ∈ g.derivationsOf connective) : d.1 ∉ g.singletons := by
  have hroles := roles_of_validate hvalid ((hg.derivationsOver connective).head_lt d hd)
  have hhead : d.1 ∈ (g.derivationsOf connective).map Prod.fst := List.mem_map_of_mem hd
  cases connective with
  | any =>
      change d.1 ∈ g.sums.map Prod.fst at hhead
      tauto
  | all =>
      change d.1 ∈ g.prods.map Prod.fst at hhead
      tauto

/-- A node draws from a distribution of the graph. -/
structure DrawsFrom (g : CausalGraph α) (n dist : Nat) (d : Distribution α) : Prop where
  refers : g.distOf? n = some dist
  present : g.dists[dist]? = some d

theorem DrawsFrom.lt {g : CausalGraph α} {n dist : Nat} {d : Distribution α}
    (hdraws : g.DrawsFrom n dist d) : dist < g.distCount :=
  (List.getElem?_eq_some_iff.mp hdraws.present).1

theorem Coherent.drawsFrom {g : CausalGraph α} (hg : g.Coherent) {n dist : Nat}
    (hdist : g.distOf? n = some dist) : ∃ d, g.DrawsFrom n dist d := by
  have hlt := (hg.stochastic_lt _ (Arrival.mem_of_get? hdist)).2
  exact ⟨g.dists[dist], hdist, List.getElem?_eq_getElem hlt⟩

end CausalGraph

namespace FactorGraph

namespace Lowering

section Numberings

variable {α ν : Type} (c : Lowering α)

/-- The latent variables that the mode has, by their nodes. -/
def gates : List Nat :=
  if c.bayesian then c.latents else []

/-- The parts of a replica in the order of their variables. -/
def parts (phonyCount : Nat) : List ReplicaPart :=
  (List.range c.graph.nodeCount).map .node ++ c.gates.map .latent ++
    (List.range phonyCount).map .phony

def slots : Numbering Slot where
  parameter := .parameter
  part
    | .node n => .own n
    | .latent n => c.latentSlot (c.latents.idxOf n)
    | .phony place => .own (c.phonyBase + place)

/-- The variable that gates the derivation of a node. -/
def controlVar (ids : Numbering ν) (n : Nat) : Option ν :=
  (c.graph.distOf? n).map (fun dist =>
    if c.bayesian then ids.part (.latent n) else ids.parameter dist)

/-- What is left of a body: nodes of it and phony nodes of a range, without repetitions. -/
structure SplitBody (ids : Numbering ν) (body : List Nat) (phonyCount : Nat) (rest : List ν) :
    Prop where
  nodup : rest.Nodup
  source : ∀ v ∈ rest, (∃ b ∈ body, v = ids.part (.node b)) ∨
    ∃ place < phonyCount, v = ids.part (.phony place)

end Numberings

section Numberings

variable {α ν : Type} {c : Lowering α}

theorem SplitBody.mono {ids : Numbering ν} {body : List Nat} {low high : Nat} {rest : List ν}
    (hrest : SplitBody ids body low rest) (hle : low ≤ high) : SplitBody ids body high rest where
  nodup := hrest.nodup
  source := by
    intro v hv
    rcases hrest.source v hv with hnode | ⟨place, hplace, heq⟩
    · exact Or.inl hnode
    · exact Or.inr ⟨place, hplace.trans_le hle, heq⟩

theorem mem_latents_iff {n : Nat} :
    n ∈ c.latents ↔
      n < c.graph.nodeCount ∧ (c.graph.distOf? n).isSome ∧ n ∉ c.graph.singletons := by
  unfold latents
  rw [List.mem_filter, List.mem_range, Bool.and_eq_true, Bool.not_eq_true', ← Bool.not_eq_true,
    CausalGraph.isSingleton_iff]
  rfl

theorem latents_nodup : c.latents.Nodup :=
  List.nodup_range.filter _

theorem priorOf_eq {n dist : Nat} {d : Distribution α} (hdraws : c.graph.DrawsFrom n dist d) :
    c.priorOf n = .ok (dist, d) := by
  unfold priorOf
  dsimp only
  rw [hdraws.refers, Option.getD_some, hdraws.present]

theorem controlOf_eq (hg : c.graph.Coherent) {n : Nat} (hn : n < c.graph.nodeCount)
    (hsingleton : n ∉ c.graph.singletons) :
    c.controlOf n = .ok (c.controlVar c.slots n) := by
  unfold controlOf controlVar
  cases hdist : c.graph.distOf? n with
  | none =>
      have hlatent : n ∉ c.latents := by simp [mem_latents_iff, hdist]
      rw [Arrival.position?_eq_none_iff.mpr hlatent]
      rfl
  | some dist =>
      have hlatent : n ∈ c.latents := by simp [mem_latents_iff, hdist, hn, hsingleton]
      obtain ⟨d, hdraws⟩ := hg.drawsFrom hdist
      rw [Arrival.position?_eq_some_iff.mpr ⟨hlatent, rfl⟩, priorOf_eq hdraws]
      by_cases hbayesian : c.bayesian = true <;> simp [hbayesian, slots]

theorem ownBelow_body (hg : c.graph.Coherent) {connective : Connective} {d : Nat × List Nat}
    (hd : d ∈ c.graph.derivationsOf connective) {next : Nat} (hnext : c.phonyBase ≤ next) :
    Splitting.OwnBelow next (d.2.map Slot.own) where
  nodup := by
    apply ((hg.derivationsOver connective).body d hd).nodup.map
    intro b other heq
    cases heq
    rfl
  below := by
    intro slot hslot
    obtain ⟨b, hb, rfl⟩ := List.mem_map.mp hslot
    have hlt := ((hg.derivationsOver connective).body d hd).lt b hb
    have hbase : c.graph.nodeCount ≤ c.phonyBase := Nat.le_add_right _ _
    exact ⟨b, rfl, by omega⟩

theorem splitBody_of_usable {body : List Nat} {slots : List Slot} (first : Nat) {last : Nat}
    (hnodup : slots.Nodup)
    (husable : ∀ slot ∈ slots,
      Splitting.Usable (body.map Slot.own) (c.phonyBase + first) (c.phonyBase + last) slot) :
    SplitBody c.slots body last slots where
  nodup := hnodup
  source := by
    intro slot hslot
    rcases husable slot hslot with hbody | ⟨place, rfl, hlow, hhigh⟩
    · obtain ⟨b, hb, rfl⟩ := List.mem_map.mp hbody
      exact Or.inl ⟨b, hb, rfl⟩
    · refine Or.inr ⟨place - c.phonyBase, by omega, ?_⟩
      change Slot.own place = Slot.own (c.phonyBase + (place - c.phonyBase))
      rw [Nat.add_sub_cancel' (by omega)]

theorem phonyPlaces_eq {nodes : List PhonyNode} {first : Nat}
    (hplaces : nodes.map PhonyNode.place = List.range' (c.phonyBase + first) nodes.length) :
    nodes.map (fun p => p.place - c.phonyBase) = List.range' first nodes.length := by
  calc
    nodes.map (fun p => p.place - c.phonyBase)
        = (nodes.map PhonyNode.place).map (fun place => place - c.phonyBase) := by
          rw [List.map_map]
          rfl
    _ = List.range' first nodes.length := by
          rw [hplaces, List.range'_eq_map_range, List.range'_eq_map_range, List.map_map]
          apply List.map_congr_left
          intro i _
          simp only [Function.comp_apply]
          omega

end Numberings

section Owners

variable {α : Type} [Scalar α] {ν : Type}

/-- The factor that a part of a replica owns. -/
inductive Owns (c : Lowering α) (ids : Numbering ν) (phonyCount : Nat) :
    ReplicaPart → Factor ν α → Prop
  | certain {n : Nat} (hsingleton : n ∈ c.graph.singletons) (hdist : c.graph.distOf? n = none) :
      Owns c ids phonyCount (.node n) (.constantTrue (ids.part (.node n)))
  | drawn {n dist : Nat} {d : Distribution α} (hsingleton : n ∈ c.graph.singletons)
      (hdraws : c.graph.DrawsFrom n dist d) :
      Owns c ids phonyCount (.node n)
        (.bernoulli (ids.part (.node n)) (ids.parameter dist)
          (if c.bayesian then d.supports else [0, 1]))
  | latent {n dist : Nat} {d : Distribution α} (hgate : n ∈ c.gates)
      (hdraws : c.graph.DrawsFrom n dist d) :
      Owns c ids phonyCount (.latent n)
        (.bernoulli (ids.part (.latent n)) (ids.parameter dist) d.supports)
  | derived {connective : Connective} {n : Nat} {body : List Nat} {rest : List ν}
      (hderivation : (n, body) ∈ c.graph.derivationsOf connective)
      (hrest : SplitBody ids body phonyCount rest) :
      Owns c ids phonyCount (.node n)
        (.clause connective (ids.part (.node n)) (c.controlVar ids n) rest)
  | phony {connective : Connective} {n place : Nat} {body : List Nat} {rest : List ν}
      (hderivation : (n, body) ∈ c.graph.derivationsOf connective) (hlt : place < phonyCount)
      (hrest : SplitBody ids body place rest) :
      Owns c ids phonyCount (.phony place)
        (.clause connective (ids.part (.phony place)) none rest)

variable {c : Lowering α}

theorem Owns.mono {ids : Numbering ν} {low high : Nat} {part : ReplicaPart} {t : Factor ν α}
    (howns : c.Owns ids low part t) (hle : low ≤ high) : c.Owns ids high part t := by
  cases howns with
  | certain hsingleton hdist => exact .certain hsingleton hdist
  | drawn hsingleton hdraws => exact .drawn hsingleton hdraws
  | latent hgate hdraws => exact .latent hgate hdraws
  | derived hderivation hrest => exact .derived hderivation (hrest.mono hle)
  | phony hderivation hlt hrest => exact .phony hderivation (hlt.trans_le hle) hrest

theorem Owns.head_eq {ids : Numbering ν} {phonyCount : Nat} {part : ReplicaPart}
    {t : Factor ν α} (howns : c.Owns ids phonyCount part t) :
    t.vars.head? = some (ids.part part) := by
  cases howns <;> rfl

end Owners

/-! ## Emission -/

section Emission

variable {α : Type} [Scalar α] {c : Lowering α}

/-- Factors that have been emitted, each owned by its part. -/
structure Emission (c : Lowering α) (e : Emitted α) (kept parts : List ReplicaPart)
    (phonyCount : Nat) : Prop where
  next_eq : e.next = c.phonyBase + phonyCount
  owned : List.Forall₂ (c.Owns c.slots phonyCount) parts e.factors
  parts_perm : parts.Perm (kept ++ (List.range phonyCount).map .phony)

theorem Emission.append {e : Emitted α} {kept parts more : List ReplicaPart} {phonyCount : Nat}
    (he : Emission c e kept parts phonyCount) {factors : List (Factor Slot α)}
    (hmore : List.Forall₂ (c.Owns c.slots phonyCount) more factors) :
    Emission c { e with factors := e.factors ++ factors } (kept ++ more) (parts ++ more)
      phonyCount where
  next_eq := he.next_eq
  owned := List.rel_append he.owned hmore
  parts_perm := by
    calc
      List.Perm (parts ++ more) (kept ++ (List.range phonyCount).map .phony ++ more) :=
            he.parts_perm.append_right more
      List.Perm _ (kept ++ more ++ (List.range phonyCount).map .phony) := by
            simpa only [List.append_assoc] using List.perm_append_comm.append_left kept

theorem Emission.append_phonies {e : Emitted α} {kept parts : List ReplicaPart}
    {phonyCount : Nat} (he : Emission c e kept parts phonyCount) {connective : Connective}
    {d : Nat × List Nat} (hd : d ∈ c.graph.derivationsOf connective) {split : Splitting α}
    {nodes : List PhonyNode}
    (hsplit : Splitting.Sound connective e.next (d.2.map Slot.own) split nodes)
    (hbodies : ∀ p ∈ nodes, Splitting.OwnBelow p.place p.body) :
    ∃ more, Emission c ⟨e.factors ++ split.factors, split.next⟩ kept more
      (phonyCount + nodes.length) := by
  have hnext := he.next_eq
  have hplaces := phonyPlaces_eq (hnext ▸ hsplit.places)
  set phonies : List ReplicaPart := nodes.map (fun p => .phony (p.place - c.phonyBase))
    with hphonies
  refine ⟨parts ++ phonies, ?_⟩
  constructor
  case next_eq =>
    dsimp only
    rw [hsplit.next_eq, hnext, Nat.add_assoc]
  case owned =>
    apply List.rel_append
    · exact he.owned.imp (fun _ _ howns => howns.mono (Nat.le_add_right _ _))
    · rw [hphonies, hsplit.factors_eq, List.forall₂_map_left_iff, List.forall₂_map_right_iff,
        List.forall₂_same]
      intro p hp
      have hmem := List.mem_map_of_mem hp (f := fun p => p.place - c.phonyBase)
      rw [hplaces, List.mem_range'_1] at hmem
      have hplace : c.phonyBase + (p.place - c.phonyBase) = p.place := by
        have hle := hsplit.le_place hp
        omega
      -- The body of a phony node mentions earlier phony nodes only, never the node itself.
      have hbody : SplitBody c.slots d.2 (p.place - c.phonyBase) p.body := by
        apply splitBody_of_usable phonyCount (hbodies p hp).nodup
        rw [hplace, ← hnext]
        exact hsplit.node_body p hp
      have howns := Owns.phony (c := c) hd hmem.2 hbody
      have hvar : c.slots.part (.phony (p.place - c.phonyBase)) = .own p.place :=
        congrArg Slot.own hplace
      rw [hvar, ← hsplit.same_connective p hp] at howns
      exact howns
  case parts_perm =>
    have hrange : phonies = (List.range' phonyCount nodes.length).map .phony := by
      rw [← hplaces, hphonies, List.map_map]
      rfl
    rw [hrange, List.range_eq_range', ← List.range'_append_1, List.map_append,
      ← List.append_assoc, Nat.zero_add, ← List.range_eq_range']
    exact he.parts_perm.append_right _

theorem Emission.emitClause (hg : c.graph.Coherent) (hvalid : c.graph.validate = .ok ())
    {e : Emitted α} {kept parts : List ReplicaPart} {phonyCount : Nat}
    (he : Emission c e kept parts phonyCount) {connective : Connective} {d : Nat × List Nat}
    (hd : d ∈ c.graph.derivationsOf connective) :
    ∃ next more count, c.emitClause connective e d = .ok next ∧
      Emission c next (kept ++ [.node d.1]) more count := by
  have hcontrol := controlOf_eq hg ((hg.derivationsOver connective).head_lt d hd)
    (CausalGraph.not_singleton_of_derivation hg hvalid hd)
  have hnext := he.next_eq
  set control := c.controlVar c.slots d.1
  set limit := if control.isSome then c.clauseLimit - 1 else c.clauseLimit
  set split : Splitting α :=
    .ofBody connective c.clauseLimit limit e.next (d.2.map Slot.own) with hofBody
  obtain ⟨nodes, hsplit⟩ :=
    Splitting.ofBody_sound (α := α) connective c.clauseLimit limit e.next (d.2.map Slot.own)
  rw [← hofBody] at hsplit
  obtain ⟨hnodes, hrest⟩ := hsplit.distinct (ownBelow_body hg hd (by omega))
  obtain ⟨more, hphonies⟩ := he.append_phonies hd hsplit hnodes
  have hbody : SplitBody c.slots d.2 (phonyCount + nodes.length) split.body := by
    apply splitBody_of_usable phonyCount hrest.nodup
    rw [← hnext, ← hphonies.next_eq]
    exact hsplit.body_usable
  have hhead := hphonies.append
    (List.Forall₂.cons (Owns.derived (c := c) hd hbody) List.Forall₂.nil)
  refine ⟨_, _, _, ?_, hhead⟩
  unfold Lowering.emitClause
  rw [hcontrol]
  rfl

theorem Emission.emitClauses (hg : c.graph.Coherent) (hvalid : c.graph.validate = .ok ())
    (connective : Connective) {derivations : List (Nat × List Nat)}
    (hderivations : derivations ⊆ c.graph.derivationsOf connective) {e : Emitted α}
    {kept parts : List ReplicaPart} {phonyCount : Nat} (he : Emission c e kept parts phonyCount) :
    ∃ last more count, derivations.foldlM (c.emitClause connective) e = .ok last ∧
      Emission c last (kept ++ (derivations.map Prod.fst).map .node) more count := by
  induction derivations generalizing e kept parts phonyCount with
  | nil =>
      refine ⟨e, parts, phonyCount, rfl, ?_⟩
      simpa using he
  | cons d derivations ih =>
      rw [List.cons_subset] at hderivations
      obtain ⟨next, _, _, hnext, hstep⟩ := he.emitClause hg hvalid hderivations.1
      obtain ⟨last, more, count, hlast, hrest⟩ := ih hderivations.2 hstep
      refine ⟨last, more, count, foldlM_cons_eq_ok_iff.mpr ⟨next, hnext, hlast⟩, ?_⟩
      simpa [List.append_assoc] using hrest

theorem latentFactors_owned (hg : c.graph.Coherent) :
    ∃ factors, c.latentFactors = .ok factors ∧
      List.Forall₂ (c.Owns c.slots 0) (c.gates.map .latent) factors := by
  unfold latentFactors
  by_cases hbayesian : c.bayesian = true
  · have hgates : c.gates = c.latents := if_pos hbayesian
    have hparts : c.latents.map ReplicaPart.latent =
        c.latents.zipIdx.map (fun entry => ReplicaPart.latent entry.1) := by
      conv_lhs => rw [← List.zipIdx_map_fst 0 c.latents]
      exact List.map_map
    rw [if_pos hbayesian, hgates, hparts]
    simp only [List.forall₂_map_left_iff]
    refine mapM_ok (fun entry hentry => ?_)
    have hget : c.latents[entry.2]? = some entry.1 := List.mem_zipIdx_iff_getElem?.mp hentry
    have hmem : entry.1 ∈ c.latents := List.mem_of_getElem? hget
    obtain ⟨dist, hdist⟩ := Option.isSome_iff_exists.mp (mem_latents_iff.mp hmem).2.1
    obtain ⟨d, hdraws⟩ := hg.drawsFrom hdist
    -- The factors are numbered by position, the slots by the first place of the node.
    have hindex : c.latents.idxOf entry.1 = entry.2 := by
      obtain ⟨hlt, hat⟩ := List.getElem?_eq_some_iff.mp hget
      rw [← hat]
      exact latents_nodup.idxOf_getElem entry.2 hlt
    rw [priorOf_eq hdraws, ← hindex]
    exact ⟨_, rfl, .latent (hgates ▸ hmem) hdraws⟩
  · have hgates : c.gates = [] := if_neg hbayesian
    rw [if_neg hbayesian, hgates]
    exact ⟨[], rfl, List.Forall₂.nil⟩

theorem singletonFactor_owned (hg : c.graph.Coherent) {n : Nat}
    (hn : n ∈ c.graph.singletons) (phonyCount : Nat) :
    ∃ t, c.singletonFactor n = .ok t ∧ c.Owns c.slots phonyCount (.node n) t := by
  unfold singletonFactor
  cases hdist : c.graph.distOf? n with
  | none => exact ⟨_, rfl, .certain hn hdist⟩
  | some dist =>
      obtain ⟨d, hdraws⟩ := hg.drawsFrom hdist
      rw [priorOf_eq hdraws]
      exact ⟨_, rfl, .drawn hn hdraws⟩

/-- Lowering a graph that validates gives every part of a replica its factor. -/
theorem template_owned (hg : c.graph.Coherent) (hvalid : c.graph.validate = .ok ()) :
    ∃ e owners phonyCount, c.template = .ok e ∧ e.next = c.phonyBase + phonyCount ∧
      List.Forall₂ (c.Owns c.slots phonyCount) owners e.factors ∧
      owners.Perm (c.parts phonyCount) := by
  obtain ⟨latents, hlatents, hlatentOwned⟩ := latentFactors_owned hg
  have hstart : Emission c ⟨latents, c.phonyBase⟩ (c.gates.map .latent)
      (c.gates.map .latent) 0 := {
    next_eq := rfl
    owned := hlatentOwned
    parts_perm := by simp }
  obtain ⟨sums, _, _, hsums, hsumEmission⟩ :=
    hstart.emitClauses hg hvalid .any (List.Subset.refl c.graph.sums)
  obtain ⟨clauses, owners, count, hclauses, hclauseEmission⟩ :=
    hsumEmission.emitClauses hg hvalid .all (List.Subset.refl c.graph.prods)
  obtain ⟨singletons, hsingletons, hsingletonOwned⟩ :=
    mapM_ok (fun _ hn => singletonFactor_owned (c := c) hg hn count)
  have hall := hclauseEmission.append (List.forall₂_map_left_iff.mpr hsingletonOwned)
  refine ⟨_, _, count, ?_, hall.next_eq, hall.owned, hall.parts_perm.trans ?_⟩
  · exact bind_eq_ok_iff.mpr ⟨latents, hlatents, bind_eq_ok_iff.mpr ⟨sums, hsums,
      bind_eq_ok_iff.mpr ⟨clauses, hclauses, bind_eq_ok_iff.mpr ⟨singletons, hsingletons, rfl⟩⟩⟩⟩
  -- Nodes are emitted by role, and every node of a graph that validates has one role.
  · apply List.Perm.append_right
    have hroles := ((hg.roles_perm hvalid).map ReplicaPart.node).append_right
      (c.gates.map .latent)
    simp only [List.map_append, List.append_assoc] at hroles ⊢
    exact List.perm_append_comm.trans (by simpa only [List.append_assoc] using hroles)

end Emission

end Lowering

end FactorGraph

end DerivationBelief

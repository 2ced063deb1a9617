import DerivationBelief.Proofs.LayoutWords
import DerivationBelief.Proofs.ReplicaVariables
import Mathlib.Tactic

/-!
# Every variable owns one factor

The variables of a compiled graph are its parameters and, replica by replica, the nodes, the latent
variables and the phony nodes.  Each of them is the first variable of exactly one factor, and apart
from the parameters a factor mentions one replica only.
-/

namespace DerivationBelief

namespace Factor

variable {α ν μ : Type} [Scalar α]

theorem bernoulli_mapVars (rename : ν → μ) (var param : ν) (supports : List α) :
    (bernoulli var param supports).mapVars rename =
      bernoulli (rename var) (rename param) supports :=
  rfl

theorem constantTrue_mapVars (rename : ν → μ) (var : ν) :
    (constantTrue var : Factor ν α).mapVars rename = constantTrue (rename var) :=
  rfl

theorem clause_mapVars (rename : ν → μ) (connective : Connective) (head : ν)
    (control : Option ν) (body : List ν) :
    (clause connective head control body : Factor ν α).mapVars rename =
      clause connective (rename head) (control.map rename) (body.map rename) := by
  cases control <;> simp [clause, mapVars, Function.comp_def]

end Factor

namespace FactorGraph

namespace Lowering

/-! ## What a factor mentions -/

section Mentions

variable {α ν : Type} {c : Lowering α} {ids : Numbering ν} {phonyCount : Nat}

theorem controlVar_source (hg : c.graph.Coherent) {n : Nat} (hn : n < c.graph.nodeCount)
    (hsingleton : n ∉ c.graph.singletons) {v : ν} (hv : v ∈ c.controlVar ids n) :
    (n ∈ c.gates ∧ v = ids.part (.latent n)) ∨
      (c.bayesian = false ∧ ∃ dist < c.graph.distCount, v = ids.parameter dist) := by
  unfold controlVar at hv
  obtain ⟨dist, hdist, hv⟩ := Option.map_eq_some_iff.mp (Option.mem_def.mp hv)
  by_cases hbayesian : c.bayesian = true
  · left
    have hlatent : n ∈ c.latents := by simp [mem_latents_iff, hdist, hn, hsingleton]
    simp_all [gates]
  · right
    have hlt := (hg.stochastic_lt _ (Arrival.mem_of_get? hdist)).2
    have hdirect : c.bayesian = false := by simpa using hbayesian
    rw [if_neg hbayesian] at hv
    exact ⟨hdirect, dist, hlt, hv.symm⟩

/-- A split body mentions nodes other than its head, and phony nodes. -/
theorem SplitBody.part_source (hg : c.graph.Coherent) {connective : Connective} {n : Nat}
    {body : List Nat} (hderivation : (n, body) ∈ c.graph.derivationsOf connective)
    {rest : List ν} (hrest : SplitBody ids body phonyCount rest) {v : ν} (hv : v ∈ rest) :
    ∃ q ∈ c.parts phonyCount, v = ids.part q ∧ q ≠ .node n ∧ q ≠ .latent n := by
  have hbody := (hg.derivationsOver connective).body (n, body) hderivation
  rcases hrest.source v hv with ⟨b, hb, rfl⟩ | ⟨place, hplace, rfl⟩
  · refine ⟨.node b, node_mem_parts.mpr (hbody.lt b hb), rfl, ?_, by simp⟩
    intro heq
    cases heq
    exact hbody.no_self hb
  · exact ⟨.phony place, phony_mem_parts.mpr hplace, rfl, by simp, by simp⟩

/-- Behind the head, a derivation mentions parts of its replica, and a parameter in the direct mode
only. -/
theorem derived_source (hg : c.graph.Coherent) (hvalid : c.graph.validate = .ok ())
    {connective : Connective} {n : Nat} {body : List Nat}
    (hderivation : (n, body) ∈ c.graph.derivationsOf connective) {rest : List ν}
    (hrest : SplitBody ids body phonyCount rest) {v : ν}
    (hv : v ∈ (c.controlVar ids n).toList ++ rest) :
    (∃ q ∈ c.parts phonyCount, v = ids.part q) ∨
      (c.bayesian = false ∧ ∃ dist < c.graph.distCount, v = ids.parameter dist) := by
  rcases List.mem_append.mp hv with hcontrol | hmem
  · have hsource := controlVar_source hg ((hg.derivationsOver connective).head_lt _ hderivation)
      (CausalGraph.not_singleton_of_derivation hg hvalid hderivation)
      (Option.mem_toList.mp hcontrol)
    exact hsource.imp_left (fun hgate => ⟨_, latent_mem_parts.mpr hgate.1, hgate.2⟩)
  · obtain ⟨q, hq, heq, _⟩ := hrest.part_source hg hderivation hmem
    exact Or.inl ⟨q, hq, heq⟩

def cardOf (c : Lowering α) (v : Nat) : Nat :=
  if c.bayesian then
    match c.graph.dists[v]? with
    | some d => d.supports.length
    | none => 2
  else 2

theorem cardOf_of_ge {v : Nat} (hv : c.graph.distCount ≤ v) : c.cardOf v = 2 := by
  unfold cardOf
  rw [List.getElem?_eq_none hv]
  simp

theorem cardOf_of_draws {n dist : Nat} {d : Distribution α}
    (hdraws : c.graph.DrawsFrom n dist d) (hbayesian : c.bayesian = true) :
    c.cardOf dist = d.supports.length := by
  unfold cardOf
  rw [if_pos hbayesian, hdraws.present]

/-- The numbers of states that a factor lists do not depend on the factor. -/
structure Sizes (c : Lowering α) (phonyCount : Nat) (ids : Numbering ν) (card : ν → Nat) :
    Prop where
  part : ∀ q ∈ c.parts phonyCount, card (ids.part q) = 2
  parameter : ∀ dist < c.graph.distCount, card (ids.parameter dist) = c.cardOf dist

theorem controlVar_new (hg : c.graph.Coherent) (hvalid : c.graph.validate = .ok ())
    (hids : Separates c phonyCount ids) {connective : Connective} {n : Nat} {body : List Nat}
    (hderivation : (n, body) ∈ c.graph.derivationsOf connective) {rest : List ν}
    (hrest : SplitBody ids body phonyCount rest) {v : ν} (hv : v ∈ c.controlVar ids n) :
    v ≠ ids.part (.node n) ∧ v ∉ rest := by
  have hn := (hg.derivationsOver connective).head_lt _ hderivation
  have hp : .node n ∈ c.parts phonyCount := node_mem_parts.mpr hn
  rcases controlVar_source hg hn
    (CausalGraph.not_singleton_of_derivation hg hvalid hderivation) hv with
    ⟨hgate, rfl⟩ | ⟨_, dist, hdist, rfl⟩
  · have hlatent : .latent n ∈ c.parts phonyCount := latent_mem_parts.mpr hgate
    constructor
    · intro heq
      cases hids.part_inj _ hlatent _ hp heq
    · intro hmem
      obtain ⟨q, hq, heq, _, hne⟩ := hrest.part_source hg hderivation hmem
      exact hne (hids.part_inj _ hlatent q hq heq).symm
  · constructor
    · exact (hids.part_ne_parameter _ hp dist hdist).symm
    · intro hmem
      obtain ⟨q, hq, heq, _⟩ := hrest.part_source hg hderivation hmem
      exact hids.part_ne_parameter q hq dist hdist heq.symm

variable {repetitions replica : Nat}

theorem SplitBody.resolve (hg : c.graph.Coherent) {connective : Connective} {n : Nat}
    {body : List Nat} (hderivation : (n, body) ∈ c.graph.derivationsOf connective)
    {rest : List Slot} {last : Nat} (hrest : SplitBody c.slots body last rest)
    (hle : last ≤ phonyCount) :
    SplitBody ((c.layout phonyCount repetitions).numbering replica) body last
      (rest.map (Slot.resolve ((c.layout phonyCount repetitions).offset replica))) where
  nodup := by
    -- Resolving identifies a parameter with a slot of some block, but a body has no parameters.
    apply List.Nodup.map_on _ hrest.nodup
    intro v hv w hw heq
    obtain ⟨p, hp, rfl, _⟩ := (hrest.mono hle).part_source hg hderivation hv
    obtain ⟨q, hq, rfl, _⟩ := (hrest.mono hle).part_source hg hderivation hw
    rw [resolve_slots hp, resolve_slots hq] at heq
    rw [numbering_separates.part_inj p hp q hq heq]
  source := by
    intro v hv
    obtain ⟨slot, hslot, rfl⟩ := List.mem_map.mp hv
    rcases hrest.source slot hslot with ⟨b, hb, rfl⟩ | ⟨place, hplace, rfl⟩
    · exact Or.inl ⟨b, hb, rfl⟩
    · exact Or.inr ⟨place, hplace, resolve_slots (phony_mem_parts.mpr (hplace.trans_le hle))⟩

theorem controlVar_resolve (hg : c.graph.Coherent) (hvalid : c.graph.validate = .ok ())
    {connective : Connective} {n : Nat} {body : List Nat}
    (hderivation : (n, body) ∈ c.graph.derivationsOf connective) :
    (c.controlVar c.slots n).map
        (Slot.resolve ((c.layout phonyCount repetitions).offset replica)) =
      c.controlVar ((c.layout phonyCount repetitions).numbering replica) n := by
  have hn := (hg.derivationsOver connective).head_lt _ hderivation
  have hsingleton := CausalGraph.not_singleton_of_derivation hg hvalid hderivation
  unfold controlVar
  cases hdist : c.graph.distOf? n with
  | none => rfl
  | some dist =>
      by_cases hbayesian : c.bayesian = true
      · have hgate : n ∈ c.gates := by
          simp [gates, hbayesian, mem_latents_iff, hdist, hn, hsingleton]
        simp [hbayesian, resolve_slots (latent_mem_parts.mpr hgate)]
      · simp [hbayesian]
        rfl

theorem numbering_sizes (replica : Nat) :
    Sizes c phonyCount ((c.layout phonyCount repetitions).numbering replica) c.cardOf where
  part := by
    intro q hq
    have hlow : (c.layout phonyCount repetitions).offset replica ≤
        ((c.layout phonyCount repetitions).numbering replica).part q := (part_mem_block hq).1
    have hoffset : c.graph.distCount ≤ (c.layout phonyCount repetitions).offset replica :=
      Nat.le_add_right _ _
    exact cardOf_of_ge (hoffset.trans hlow)
  parameter := fun _ _ => rfl

end Mentions

section Owners

variable {α : Type} [Scalar α] {c : Lowering α} {ν : Type} {ids : Numbering ν} {phonyCount : Nat}
  {p : ReplicaPart} {t : Factor ν α}

theorem Owns.mem_parts (hg : c.graph.Coherent) (howns : c.Owns ids phonyCount p t) :
    p ∈ c.parts phonyCount := by
  cases howns with
  | certain hsingleton _ | drawn hsingleton _ =>
      exact node_mem_parts.mpr (hg.singletons_lt _ hsingleton)
  | latent hgate _ => exact latent_mem_parts.mpr hgate
  | derived hderivation _ =>
      exact node_mem_parts.mpr ((hg.derivationsOver _).head_lt _ hderivation)
  | phony _ hlt _ => exact phony_mem_parts.mpr hlt

theorem Owns.vars_source (hg : c.graph.Coherent) (hvalid : c.graph.validate = .ok ())
    (howns : c.Owns ids phonyCount p t) {v : ν} (hv : v ∈ t.vars) :
    (∃ q ∈ c.parts phonyCount, v = ids.part q) ∨
      ∃ dist < c.graph.distCount, v = ids.parameter dist := by
  have hp := howns.mem_parts hg
  cases howns with
  | certain =>
      left
      exact ⟨_, hp, List.mem_singleton.mp hv⟩
  | drawn _ hdraws | latent _ hdraws =>
      rcases List.mem_pair.mp hv with rfl | rfl
      · exact Or.inl ⟨_, hp, rfl⟩
      · exact Or.inr ⟨_, hdraws.lt, rfl⟩
  | derived hderivation hrest =>
      rcases List.mem_cons.mp hv with rfl | hv
      · exact Or.inl ⟨_, hp, rfl⟩
      · exact (derived_source hg hvalid hderivation hrest hv).imp_right And.right
  | phony hderivation hlt hrest =>
      rcases List.mem_cons.mp hv with rfl | hmem
      · exact Or.inl ⟨_, hp, rfl⟩
      · obtain ⟨q, hq, rfl, _⟩ :=
          (hrest.mono (Nat.le_of_lt hlt)).part_source hg hderivation hmem
        exact Or.inl ⟨q, hq, rfl⟩

theorem Owns.vars_nodup (hg : c.graph.Coherent) (hvalid : c.graph.validate = .ok ())
    (hids : Separates c phonyCount ids) (howns : c.Owns ids phonyCount p t) :
    t.vars.Nodup := by
  have hp := howns.mem_parts hg
  cases howns with
  | certain => exact List.nodup_singleton _
  | drawn _ hdraws | latent _ hdraws =>
      simpa [Factor.bernoulli] using hids.part_ne_parameter _ hp _ hdraws.lt
  | @derived connective n body rest hderivation hrest =>
      have hhead : ids.part (.node n) ∉ rest := by
        intro hmem
        obtain ⟨q, hq, heq, hne, _⟩ := hrest.part_source hg hderivation hmem
        exact hne (hids.part_inj _ hp q hq heq).symm
      unfold Factor.clause
      dsimp only
      cases hgate : c.controlVar ids n with
      | none => simp [hhead, hrest.nodup]
      | some v =>
          obtain ⟨hne, hnew⟩ := controlVar_new hg hvalid hids hderivation hrest hgate
          simp [hhead, hrest.nodup, hne.symm, hnew]
  | @phony connective n place body rest hderivation hlt hrest =>
      refine List.nodup_cons.mpr ⟨?_, hrest.nodup⟩
      intro hmem
      rcases hrest.source _ hmem with ⟨b, hb, heq⟩ | ⟨earlier, hearlier, heq⟩
      · have hb := ((hg.derivationsOver connective).body (n, body) hderivation).lt b hb
        have hsame := hids.part_inj _ hp _ (node_mem_parts.mpr hb) heq
        cases hsame
      -- Only phony nodes in front of this one are in its body.
      · have hpart : .phony earlier ∈ c.parts phonyCount :=
          phony_mem_parts.mpr (hearlier.trans hlt)
        cases hids.part_inj _ hp _ hpart heq
        exact lt_irrefl _ hearlier

theorem Owns.cards_eq (hg : c.graph.Coherent) (hvalid : c.graph.validate = .ok ())
    {card : ν → Nat} (hcard : Sizes c phonyCount ids card) (howns : c.Owns ids phonyCount p t) :
    t.cards = t.vars.map card := by
  have hbinary : ∀ {connective : Connective} {head : ν} {control : Option ν} {body : List ν},
      card head = 2 → (∀ v ∈ control.toList ++ body, card v = 2) →
      (Factor.clause connective head control body : Factor ν α).cards =
        (Factor.clause connective head control body : Factor ν α).vars.map card := by
    intro connective head control body hhead hrest
    apply List.map_congr_left
    intro v hv
    rcases List.mem_cons.mp hv with rfl | hv
    · exact hhead.symm
    · exact (hrest v hv).symm
  have hhead := hcard.part p (howns.mem_parts hg)
  cases howns with
  | certain => simp [Factor.constantTrue, hhead]
  | drawn _ hdraws =>
      by_cases hbayesian : c.bayesian = true
      · simp [Factor.bernoulli, hhead, hbayesian, hcard.parameter _ hdraws.lt,
          cardOf_of_draws hdraws hbayesian]
      · simp [Factor.bernoulli, hhead, hbayesian, hcard.parameter _ hdraws.lt, cardOf]
  | latent hgate hdraws =>
      have hbayesian := bayesian_of_gate hgate
      simp [Factor.bernoulli, hhead, hcard.parameter _ hdraws.lt,
        cardOf_of_draws hdraws hbayesian]
  | derived hderivation hrest =>
      apply hbinary hhead
      intro v hv
      rcases derived_source hg hvalid hderivation hrest hv with
        ⟨q, hq, rfl⟩ | ⟨hdirect, dist, hdist, rfl⟩
      · exact hcard.part q hq
      · simp [hcard.parameter dist hdist, cardOf, hdirect]
  | phony hderivation hlt hrest =>
      apply hbinary hhead
      intro v hv
      obtain ⟨q, hq, rfl, _⟩ := (hrest.mono (Nat.le_of_lt hlt)).part_source hg hderivation hv
      exact hcard.part q hq

end Owners

section Replicas

variable {α : Type} [Scalar α] {c : Lowering α} {phonyCount repetitions : Nat} {p : ReplicaPart}

/-- Every replica has a copy of the factor of a part. -/
theorem Owns.resolve (hg : c.graph.Coherent) (hvalid : c.graph.validate = .ok ())
    {t : Factor Slot α} (howns : c.Owns c.slots phonyCount p t) (replica : Nat) :
    c.Owns ((c.layout phonyCount repetitions).numbering replica) phonyCount p
      (t.mapVars (Slot.resolve ((c.layout phonyCount repetitions).offset replica))) := by
  have hvar : (c.slots.part p).resolve ((c.layout phonyCount repetitions).offset replica) =
      ((c.layout phonyCount repetitions).numbering replica).part p :=
    resolve_slots (howns.mem_parts hg)
  cases howns with
  | certain hsingleton hdist =>
      rw [Factor.constantTrue_mapVars, hvar]
      exact .certain hsingleton hdist
  | drawn hsingleton hdraws =>
      rw [Factor.bernoulli_mapVars, hvar]
      exact .drawn hsingleton hdraws
  | latent hgate hdraws =>
      rw [Factor.bernoulli_mapVars, hvar]
      exact .latent hgate hdraws
  | derived hderivation hrest =>
      rw [Factor.clause_mapVars, hvar, controlVar_resolve hg hvalid hderivation]
      exact .derived hderivation (hrest.resolve hg hderivation (le_refl _))
  | phony hderivation hlt hrest =>
      rw [Factor.clause_mapVars, hvar]
      exact .phony hderivation hlt (hrest.resolve hg hderivation (Nat.le_of_lt hlt))

/-! ## Compiled graphs -/

/-- A compiled graph, with the owners of its template. -/
structure Compiled (c : Lowering α) (phonyCount repetitions : Nat) (f : FactorGraph α)
    (owners : List ReplicaPart) : Prop where
  layout_eq : f.layout = c.layout phonyCount repetitions
  parameters_eq : f.parameters = c.parameterFactors
  owned : List.Forall₂ (c.Owns c.slots phonyCount) owners f.template
  owners_perm : owners.Perm (c.parts phonyCount)

theorem compile_compiled (hg : c.graph.Coherent) (hvalid : c.graph.validate = .ok ())
    (hlow : 2 ≤ c.clauseLimit) (hhigh : c.clauseLimit ≤ maxClauseLimit) (repetitions : Nat) :
    ∃ f phonyCount owners, compile c.graph repetitions c.bayesian c.clauseLimit = .ok f ∧
      Compiled c phonyCount repetitions f owners := by
  obtain ⟨e, owners, phonyCount, htemplate, hnext, howned, hperm⟩ := template_owned hg hvalid
  have hlimit : ¬ (c.clauseLimit < 2 ∨ maxClauseLimit < c.clauseLimit) := by omega
  refine ⟨⟨c.layout phonyCount repetitions, c.parameterFactors, e.factors⟩, phonyCount, owners,
    ?_, rfl, rfl, howned, hperm⟩
  unfold compile
  rw [if_neg hlimit]
  refine bind_eq_ok_iff.mpr ⟨e, htemplate, ?_⟩
  rw [hnext, Nat.add_sub_cancel_left]
  rfl

variable {f : FactorGraph α} {owners : List ReplicaPart}

theorem Compiled.repetitions_eq (hf : Compiled c phonyCount repetitions f owners) :
    f.layout.repetitions = repetitions := by
  rw [hf.layout_eq]
  rfl

theorem Compiled.distCount_eq (hf : Compiled c phonyCount repetitions f owners) :
    f.layout.distCount = c.graph.distCount := by
  rw [hf.layout_eq]
  rfl

theorem Compiled.replica_owned (hf : Compiled c phonyCount repetitions f owners)
    (hg : c.graph.Coherent) (hvalid : c.graph.validate = .ok ()) (replica : Nat) :
    List.Forall₂ (c.Owns (f.layout.numbering replica) phonyCount) owners
      (f.replicaFactors replica) := by
  unfold replicaFactors
  rw [hf.layout_eq, List.forall₂_map_right_iff]
  exact hf.owned.imp (fun _ _ howns => howns.resolve hg hvalid replica)

theorem Compiled.mem_factors (hf : Compiled c phonyCount repetitions f owners)
    (hg : c.graph.Coherent) (hvalid : c.graph.validate = .ok ()) {t : Factor Nat α}
    (ht : t ∈ f.factors) :
    (∃ dist d, c.graph.dists[dist]? = some d ∧ t = c.parameterFactor dist d) ∨
      ∃ r ≤ repetitions, ∃ p, c.Owns (f.layout.numbering r) phonyCount p t := by
  rcases List.mem_append.mp ht with hparameter | hreplica
  · left
    rw [hf.parameters_eq] at hparameter
    obtain ⟨entry, hentry, rfl⟩ := List.mem_map.mp hparameter
    exact ⟨entry.2, entry.1, List.mem_zipIdx_iff_getElem?.mp hentry, rfl⟩
  · right
    obtain ⟨r, hr, hmem⟩ := List.mem_flatMap.mp hreplica
    rw [hf.repetitions_eq, List.mem_range] at hr
    have howned := hf.replica_owned hg hvalid r
    obtain ⟨i, hi, rfl⟩ := List.mem_iff_getElem.mp hmem
    have hlt : i < owners.length := by rw [howned.length_eq]; exact hi
    exact ⟨r, Nat.le_of_lt_succ hr, owners[i], howned.get hlt hi⟩

theorem parameterFactor_head (dist : Nat) (d : Distribution α) :
    (c.parameterFactor dist d).vars = [dist] := by
  unfold parameterFactor
  split <;> rfl

theorem parameterFactors_heads :
    c.parameterFactors.map (fun t => t.vars.head?) =
      (List.range c.graph.distCount).map some := by
  unfold parameterFactors
  rw [List.map_map]
  have hheads : c.graph.dists.zipIdx.map Prod.snd = List.range c.graph.distCount := by
    rw [List.zipIdx_map_snd, List.range_eq_range']
    rfl
  rw [← hheads, List.map_map]
  apply List.map_congr_left
  intro entry _
  simp [parameterFactor_head]

theorem Compiled.replica_heads (hf : Compiled c phonyCount repetitions f owners)
    (hg : c.graph.Coherent) (hvalid : c.graph.validate = .ok ()) (replica : Nat) :
    ((f.replicaFactors replica).map (fun t => t.vars.head?)).Perm
      ((c.parts phonyCount).map (f.layout.partVar? replica)) := by
  have hheads : (f.replicaFactors replica).map (fun t => t.vars.head?) =
      owners.map (f.layout.partVar? replica) := by
    rw [← List.forall₂_eq_eq_eq, List.forall₂_map_left_iff, List.forall₂_map_right_iff]
    apply (hf.replica_owned hg hvalid replica).flip.imp
    intro t p howns
    rw [howns.head_eq, hf.layout_eq, partVar?_of_mem (howns.mem_parts hg)]
  rw [hheads]
  exact hf.owners_perm.map _

theorem Compiled.heads_perm (hf : Compiled c phonyCount repetitions f owners)
    (hg : c.graph.Coherent) (hvalid : c.graph.validate = .ok ()) :
    (f.factors.map (fun t => t.vars.head?)).Perm
      ((List.range f.layout.factorCount).map some) := by
  have hreplicas : (((List.range (repetitions + 1)).flatMap f.replicaFactors).map
      (fun t => t.vars.head?)).Perm
      ((List.range' c.graph.distCount (f.layout.shift * (repetitions + 1))).map some) := by
    have haddresses := addresses_eq (c := c) phonyCount repetitions
    rw [← hf.layout_eq] at haddresses
    rw [List.map_flatMap, ← haddresses]
    exact List.Perm.flatMap_left _ (fun r _ => hf.replica_heads hg hvalid r)
  unfold factors
  rw [VariableLayout.range_factorCount, List.map_append, List.map_append, hf.parameters_eq,
    parameterFactors_heads, hf.repetitions_eq, hf.distCount_eq]
  exact hreplicas.append_left _

theorem Compiled.one_block (hf : Compiled c phonyCount repetitions f owners)
    (hg : c.graph.Coherent) (hvalid : c.graph.validate = .ok ()) {t : Factor Nat α}
    (ht : t ∈ f.factors) :
    ∃ r ≤ repetitions, ∀ v ∈ t.vars,
      v < f.layout.distCount ∨ (f.layout.offset r ≤ v ∧ v < f.layout.offset (r + 1)) := by
  rw [hf.distCount_eq]
  rcases hf.mem_factors hg hvalid ht with ⟨dist, d, hd, rfl⟩ | ⟨r, hr, p, howns⟩
  · refine ⟨0, Nat.zero_le _, ?_⟩
    intro v hv
    rw [parameterFactor_head, List.mem_singleton] at hv
    exact Or.inl (hv ▸ (List.getElem?_eq_some_iff.mp hd).1)
  · refine ⟨r, hr, ?_⟩
    intro v hv
    rcases howns.vars_source hg hvalid hv with ⟨q, hq, rfl⟩ | ⟨dist, hdist, rfl⟩
    · right
      rw [hf.layout_eq]
      exact part_mem_block hq
    · exact Or.inl hdist

theorem Compiled.var_lt (hf : Compiled c phonyCount repetitions f owners)
    (hg : c.graph.Coherent) (hvalid : c.graph.validate = .ok ()) {t : Factor Nat α}
    (ht : t ∈ f.factors) {v : Nat} (hv : v ∈ t.vars) : v < f.layout.factorCount := by
  obtain ⟨r, hr, hblock⟩ := hf.one_block hg hvalid ht
  unfold VariableLayout.factorCount
  rcases hblock v hv with hparameter | ⟨_, hlt⟩
  · omega
  · have hle : (r + 1) * f.layout.shift ≤ f.layout.shift * (f.layout.repetitions + 1) := by
      rw [Nat.mul_comm, hf.repetitions_eq]
      exact Nat.mul_le_mul_left _ (by omega)
    unfold VariableLayout.offset at hlt
    omega

theorem Compiled.vars_nodup (hf : Compiled c phonyCount repetitions f owners)
    (hg : c.graph.Coherent) (hvalid : c.graph.validate = .ok ()) {t : Factor Nat α}
    (ht : t ∈ f.factors) : t.vars.Nodup := by
  rcases hf.mem_factors hg hvalid ht with ⟨dist, d, _, rfl⟩ | ⟨r, _, p, howns⟩
  · simp [parameterFactor_head]
  · rw [hf.layout_eq] at howns
    exact howns.vars_nodup hg hvalid numbering_separates

theorem Compiled.cards_eq (hf : Compiled c phonyCount repetitions f owners)
    (hg : c.graph.Coherent) (hvalid : c.graph.validate = .ok ())
    (hdists : ∀ d ∈ c.graph.dists, d.supports.length = d.probabilities.length)
    {t : Factor Nat α} (ht : t ∈ f.factors) : t.cards = t.vars.map c.cardOf := by
  rcases hf.mem_factors hg hvalid ht with ⟨dist, d, hd, rfl⟩ | ⟨r, _, p, howns⟩
  · have hlength := hdists d (List.mem_of_getElem? hd)
    unfold parameterFactor
    by_cases hbayesian : c.bayesian = true
    · simp [Factor.categorical, cardOf, hbayesian, hd, hlength]
    · simp [Factor.categorical, cardOf, hbayesian]
  · rw [hf.layout_eq] at howns
    exact howns.cards_eq hg hvalid (numbering_sizes r)

theorem Compiled.owner (hf : Compiled c phonyCount repetitions f owners)
    (hg : c.graph.Coherent) (hvalid : c.graph.validate = .ok ()) {r : Nat} (hr : r ≤ repetitions)
    {p : ReplicaPart} (hp : p ∈ c.parts phonyCount) :
    ∃ t ∈ f.factors, t.vars.head? = f.layout.partVar? r p ∧
      c.Owns (f.layout.numbering r) phonyCount p t := by
  have howned := hf.replica_owned hg hvalid r
  obtain ⟨i, hi, rfl⟩ := List.mem_iff_getElem.mp (hf.owners_perm.mem_iff.mpr hp)
  have hlt : i < (f.replicaFactors r).length := howned.length_eq ▸ hi
  have howns := howned.get hi hlt
  refine ⟨(f.replicaFactors r)[i], ?_, ?_, howns⟩
  · refine List.mem_append_right _ (List.mem_flatMap.mpr ⟨r, ?_, List.getElem_mem hlt⟩)
    rw [hf.repetitions_eq, List.mem_range]
    omega
  · have hhead := howns.head_eq
    rw [List.get_eq_getElem] at hhead
    rw [hhead, hf.layout_eq]
    exact (partVar?_of_mem hp).symm

end Replicas

end Lowering

section Ownership

variable {α : Type} [Scalar α]

/-- Every variable of a compiled graph owns exactly one factor, and replicas do not mix. -/
structure VariablesOwned (c : Lowering α) (phonyCount repetitions : Nat)
    (f : FactorGraph α) : Prop where
  layout_eq : f.layout = c.layout phonyCount repetitions
  length_eq : f.factors.length = f.layout.factorCount
  factorCount_eq : f.factorCount = f.layout.factorCount
  heads_perm : (f.factors.map (fun t => t.vars.head?)).Perm
    ((List.range f.layout.factorCount).map some)
  var_lt : ∀ t ∈ f.factors, ∀ v ∈ t.vars, v < f.layout.factorCount
  vars_nodup : ∀ t ∈ f.factors, t.vars.Nodup
  one_card : ∃ card : Nat → Nat, ∀ t ∈ f.factors, t.cards = t.vars.map card
  one_block : ∀ t ∈ f.factors, ∃ r ≤ repetitions, ∀ v ∈ t.vars,
    v < f.layout.distCount ∨ (f.layout.offset r ≤ v ∧ v < f.layout.offset (r + 1))
  /-- In order, the nodes, latent variables and phony nodes of the replicas have exactly the
  variables behind the parameters. -/
  addresses_eq : (List.range (repetitions + 1)).flatMap (fun r =>
      (c.parts phonyCount).map (f.layout.partVar? r)) =
    (List.range' f.layout.distCount (f.layout.shift * (repetitions + 1))).map some
  owner : ∀ r ≤ repetitions, ∀ p ∈ c.parts phonyCount, ∃ t ∈ f.factors,
    t.vars.head? = f.layout.partVar? r p ∧ c.Owns (f.layout.numbering r) phonyCount p t
  in_words : f.layout.InWords

/-- Compiling a graph that validates succeeds, in both modes and with any number of replicas.  When the
replicas and the variables can be counted in 64 bits, every variable has its one factor, and the
layout finds it without an overflow. -/
theorem compile_owns_variables {g : CausalGraph α} (hg : g.Constructed)
    (hvalid : g.validate = .ok ())
    (hdists : ∀ d ∈ g.dists, d.supports.length = d.probabilities.length)
    (repetitions : Nat) (bayesian : Bool) {limit : Nat} (hlow : 2 ≤ limit) (hhigh : limit ≤ 62) :
    ∃ f phonyCount, compile g repetitions bayesian limit = .ok f ∧
      (repetitions + 1 < Text.word64 → f.layout.factorCount < Text.word64 →
        VariablesOwned ⟨g, bayesian, limit⟩ phonyCount repetitions f) := by
  set c : Lowering α := ⟨g, bayesian, limit⟩
  have hc : c.graph.Coherent := hg.coherent
  obtain ⟨f, phonyCount, owners, hcompile, hf⟩ :=
    Lowering.compile_compiled (c := c) hc hvalid hlow hhigh repetitions
  have hheads := hf.heads_perm hc hvalid
  have hlength : f.factors.length = f.layout.factorCount := by
    simpa using hheads.length_eq
  refine ⟨f, phonyCount, hcompile, fun hrepetitions hcount => ?_⟩
  constructor
  case layout_eq => exact hf.layout_eq
  case length_eq => exact hlength
  case factorCount_eq =>
    rw [← hlength]
    unfold factorCount factors replicaFactors
    simp [List.length_flatMap, Nat.mul_comm]
  case heads_perm => exact hheads
  case var_lt => exact fun t ht v hv => hf.var_lt hc hvalid ht hv
  case vars_nodup => exact fun t ht => hf.vars_nodup hc hvalid ht
  case one_card => exact ⟨c.cardOf, fun t ht => hf.cards_eq hc hvalid hdists ht⟩
  case one_block => exact fun t ht => hf.one_block hc hvalid ht
  case addresses_eq =>
    rw [hf.layout_eq]
    exact Lowering.addresses_eq phonyCount repetitions
  case owner => exact fun r hr p hp => hf.owner hc hvalid hr hp
  case in_words => exact VariableLayout.inWords hcount (by rwa [hf.layout_eq])

end Ownership

/-! ## A street over machine numbers -/

open CausalGraph

/-- Rain and the rule that makes the street wet draw from one distribution. -/
def sharedStreet {α : Type} (d : Distribution α) : CausalGraph α :=
  ⟨"street", ["rain", "wet"], [0], [(1, [0])], [], [d], [(0, 0), (1, 0)]⟩

theorem sharedStreet_constructed {α : Type} (d : Distribution α) :
    (sharedStreet d).Constructed := by
  set dry : CausalGraph α := ⟨"street", ["rain", "wet"], [0], [(1, [0])], [], [], []⟩
  have hbuild : CausalGraph.build "street" ["rain", "wet"] ["rain"] [("wet", ["rain"])] [] =
      .ok dry := rfl
  have htie : (dry.setPrior "rain" d).1.tie 1 0 = .ok (sharedStreet d) := rfl
  exact ((Constructed.build hbuild).setPrior "rain" d).tie htie

theorem sharedStreet_valid {α : Type} (d : Distribution α) :
    (sharedStreet d).validate = .ok () :=
  rfl

def evenFloats : Distribution Float :=
  ⟨[0.25, 0.75], [0.5, 0.5]⟩

theorem sharedStreet_owns_variables :
    ∃ f phonyCount, compile (sharedStreet evenFloats) 1 true 2 = .ok f ∧
      VariablesOwned ⟨sharedStreet evenFloats, true, 2⟩ phonyCount 1 f := by
  have hdists : ∀ d ∈ (sharedStreet evenFloats).dists,
      d.supports.length = d.probabilities.length := by
    simp [sharedStreet, evenFloats]
  have hsmall : ∀ f ∈ (compile (sharedStreet evenFloats) 1 true 2).toOption,
      f.layout.factorCount < Text.word64 := by
    decide +kernel
  obtain ⟨f, phonyCount, hf, howned⟩ := compile_owns_variables
    (sharedStreet_constructed evenFloats) (sharedStreet_valid evenFloats) hdists 1 true
    (by decide : 2 ≤ 2) (by decide)
  exact ⟨f, phonyCount, hf, howned (by decide) (hsmall f (by rw [hf]; rfl))⟩

end FactorGraph

end DerivationBelief

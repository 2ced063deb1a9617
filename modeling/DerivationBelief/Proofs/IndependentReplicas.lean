import DerivationBelief.Proofs.CompiledAnswers
import Mathlib.Tactic

/-!
# Replicas are independent once the draws are known

With the values of all distributions given, every node holds with a probability that depends on its
own chance and on the body of its derivation: the latent variable of a stochastic derivation is
looked at by that derivation only, so it may be summed out.  What is left is the same in both modes.

Replicas share nothing but the draws.  So the probability of an event that puts one condition on the
draws and one on each replica is a sum over the draws, in which every replica has a factor of its
own.  Which replica stands for which condition does not matter.
-/

namespace DerivationBelief

/-! ## A node given its chance -/

namespace CausalGraph

open VariableLayout

variable {g : CausalGraph ℚ} {bayesian : Bool} {l : VariableLayout}

/-- The probability of the truth value of a node, given the chance that its derivation is let through
or that it holds by itself. -/
def holdProbability (g : CausalGraph ℚ) (n : Nat) (chance : ℚ) (holds : Nat → Bool) : ℚ :=
  match g.derivation? n with
  | some (connective, body) =>
      chance * agreement (holds n) (connective.derives body holds) +
        (1 - chance) * agreement (holds n) false
  | none => Factor.chance chance (holds n)

/-- The probability of a node and of the value of its latent variable. -/
def gatedProbability (g : CausalGraph ℚ) (n : Nat) (chance : ℚ) (holds : Nat → Bool)
    (through : Bool) : ℚ :=
  match g.derivation? n with
  | some (connective, body) =>
      agreement (holds n) (through && connective.derives body holds) *
        Factor.chance chance through
  | none => Factor.chance chance (holds n) * Factor.chance chance through

theorem gatedProbability_sum (g : CausalGraph ℚ) (n : Nat) (chance : ℚ) (holds : Nat → Bool) :
    g.gatedProbability n chance holds false + g.gatedProbability n chance holds true =
      g.holdProbability n chance holds := by
  unfold gatedProbability holdProbability Factor.chance
  cases g.derivation? n with
  | none =>
      dsimp only
      simp only [if_true, Bool.false_eq_true, if_false]
      ring
  | some derivation =>
      dsimp only
      simp only [if_true, Bool.false_eq_true, if_false, Bool.false_and, Bool.true_and]
      ring

/-- A gated node and its latent variable. -/
theorem nodeProbability_mul_latent (w : World) (replica : Nat) {n : Nat}
    (hn : n ∈ g.gatedNodes) :
    g.nodeProbability true w replica n * g.latentProbability true w replica n =
      g.gatedProbability n (g.chanceOf true w n) (w.node replica) (w.latent replica n) := by
  obtain ⟨dist, hdist⟩ := FactorGraph.Lowering.distOf?_of_mem_gatedNodes hn
  have hlets : g.lets true w replica n = w.latent replica n := by
    unfold lets
    rw [hdist]
    rfl
  unfold nodeProbability latentProbability gatedProbability
  rw [hlets]
  cases g.derivation? n <;> rfl

/-- A node without a latent variable is decided by the draws. -/
theorem nodeProbability_eq (hg : g.Proper) (w : World) (replica : Nat) {n : Nat}
    (hn : n < g.nodeCount) (hgate : bayesian = true → n ∉ g.gatedNodes) :
    g.nodeProbability bayesian w replica n =
      g.holdProbability n (g.chanceOf bayesian w n) (w.node replica) := by
  unfold nodeProbability holdProbability
  cases hderivation : g.derivation? n with
  | none => rfl
  | some derivation =>
      have hsingleton : n ∉ g.singletons := by
        intro hmem
        have hnone : g.derivation? n = none :=
          FactorGraph.Lowering.derivation?_of_singleton (c := ⟨g, bayesian, 2⟩) hg hmem
        cases hnone.symm.trans hderivation
      have hchance : g.chanceOf bayesian w n = if g.lets bayesian w replica n then 1 else 0 := by
        unfold chanceOf lets
        cases hdist : g.distOf? n with
        | none => rfl
        | some dist =>
            have hlt := (hg.coherent.stochastic_lt _ (Arrival.mem_of_get? hdist)).2
            dsimp only
            rw [List.getElem?_eq_getElem hlt]
            cases bayesian with
            | true =>
                have hnone := FactorGraph.Lowering.distOf?_of_not_mem_gatedNodes hn hsingleton
                  (hgate rfl)
                cases hnone.symm.trans hdist
            | false => simp [Distribution.drawnChance]
      dsimp only
      rw [hchance]
      cases g.lets bayesian w replica n <;> simp

/-! ## One replica -/

theorem prod_gatedNodes (g : CausalGraph ℚ) (f : Nat → ℚ) :
    (g.gatedNodes.map f).prod = ∏ n ∈ (Finset.range g.nodeCount).filter (· ∈ g.gatedNodes), f n := by
  rw [← List.prod_toFinset f (gatedNodes_nodup g)]
  apply Finset.prod_congr _ (fun _ _ => rfl)
  ext n
  rw [List.mem_toFinset, Finset.mem_filter, Finset.mem_range]
  exact ⟨fun hn => ⟨List.mem_range.mp (List.mem_filter.mp hn).1, hn⟩, And.right⟩

theorem prod_nodes (g : CausalGraph ℚ) (f : Nat → ℚ) :
    ((List.range g.nodeCount).map f).prod = ∏ n ∈ Finset.range g.nodeCount, f n := by
  rw [← List.prod_toFinset f List.nodup_range, List.toFinset_range]

theorem gatedProbability_congr (hg : g.Coherent) {n : Nat} (hn : n < g.nodeCount) (chance : ℚ)
    {holds other : Nat → Bool} (hsame : ∀ m < g.nodeCount, holds m = other m) (through : Bool) :
    g.gatedProbability n chance holds through = g.gatedProbability n chance other through := by
  unfold gatedProbability
  rw [hsame n hn]
  cases hderivation : g.derivation? n with
  | none => rfl
  | some derivation =>
      obtain ⟨connective, body⟩ := derivation
      have hbody : connective.derives body holds = connective.derives body other :=
        derives_congr connective
          (fun b hb => hsame b (hg.bodyOf_lt (derivation?_subset hderivation hb)))
      dsimp only
      rw [hbody]

theorem holdProbability_congr (hg : g.Coherent) {n : Nat} (hn : n < g.nodeCount) (chance : ℚ)
    {holds other : Nat → Bool} (hsame : ∀ m < g.nodeCount, holds m = other m) :
    g.holdProbability n chance holds = g.holdProbability n chance other := by
  rw [← gatedProbability_sum, ← gatedProbability_sum, gatedProbability_congr hg hn chance hsame,
    gatedProbability_congr hg hn chance hsame]

theorem latentVars_in_block {replica v : Nat} (hv : v ∈ l.latentVars replica) :
    v ∈ l.Block replica :=
  replicaVars_subset_block (List.mem_append_right _ hv)

theorem nodeVar_not_mem_latentVars {n : Nat} (hn : n < l.nodeCount) (replica : Nat) :
    l.nodeVar replica n ∉ l.latentVars replica := by
  intro hmem
  obtain ⟨place, _, heq⟩ := List.mem_map.mp hmem
  unfold VariableLayout.nodeVar at heq
  omega

theorem chanceOf_off (hl : l.Describes g bayesian) {replica : Nat} {vars : List Nat}
    (hvars : ∀ v ∈ vars, v ∈ l.Block replica) {a b : Assignment} (hab : ∀ v ∉ vars, b v = a v)
    (n : Nat) : g.chanceOf bayesian (l.world b) n = g.chanceOf bayesian (l.world a) n := by
  apply chanceOf_dependsOn hl n
  intro v hv
  exact hab v (fun hmem => block_not_parameter (hvars v hmem) hv)

/-- The variable that gates a node in a replica. -/
def gateVar (g : CausalGraph ℚ) (l : VariableLayout) (replica n : Nat) : Nat :=
  l.offset replica + l.nodeCount + g.gatedNodes.idxOf n

theorem gateVar_states (hl : l.Describes g bayesian) (replica n : Nat) :
    g.stateCount bayesian (g.gateVar l replica n) = 2 := by
  unfold gateVar
  rw [Nat.add_assoc]
  exact offset_states hl replica _

theorem gateVars_eq (hl : l.Describes g true) (replica : Nat) :
    g.gatedNodes.map (g.gateVar l replica) = l.latentVars replica := by
  rw [← latentPart_vars hl replica, List.flatMap_map]
  exact List.map_eq_flatMap

theorem world_latent_eq (hl : l.Describes g true) (replica : Nat) {n : Nat}
    (hn : n ∈ g.gatedNodes) (a : Assignment) :
    (l.world a).latent replica n = decide (a (g.gateVar l replica n) = 1) := by
  unfold VariableLayout.world
  dsimp only
  rw [latentVar?_of_mem hl hn replica]
  rfl

/-- The nodes of a replica behind their latent variables: what does not have one is decided, and
what has one is a factor of its own. -/
theorem replicaProbability_split (hl : l.Describes g true) (hg : g.Proper) (replica : Nat)
    {a b : Assignment} (hab : ∀ v ∉ l.latentVars replica, b v = a v) :
    g.replicaProbability true (l.world b) replica =
      (∏ n ∈ Finset.range g.nodeCount with n ∉ g.gatedNodes,
        g.holdProbability n (g.chanceOf true (l.world a) n) ((l.world a).node replica)) *
      (g.gatedNodes.map (fun n =>
        g.gatedProbability n (g.chanceOf true (l.world a) n) ((l.world a).node replica)
          (decide (b (g.gateVar l replica n) = 1)))).prod := by
  have hchance : ∀ n, g.chanceOf true (l.world b) n = g.chanceOf true (l.world a) n :=
    chanceOf_off hl (fun _ => latentVars_in_block) hab
  have hnode : ∀ n < g.nodeCount, (l.world b).node replica n = (l.world a).node replica n := by
    intro n hn
    apply l.world_node_dependsOn replica n
    rintro v rfl
    exact hab _ (nodeVar_not_mem_latentVars (hl.nodeCount_eq ▸ hn) replica)
  have hlatents : g.latentsProbability true (l.world b) replica =
      ∏ n ∈ Finset.range g.nodeCount with n ∈ g.gatedNodes,
        g.latentProbability true (l.world b) replica n := prod_gatedNodes g _
  unfold replicaProbability
  rw [hlatents, prod_nodes, prod_gatedNodes, ← Finset.prod_filter_mul_prod_filter_not _
    (· ∈ g.gatedNodes), mul_assoc, mul_comm (∏ n ∈ _ with n ∈ g.gatedNodes, _), mul_assoc,
    ← Finset.prod_mul_distrib]
  congr 1
  · apply Finset.prod_congr rfl
    intro n hn
    obtain ⟨hrange, hungated⟩ := Finset.mem_filter.mp hn
    rw [nodeProbability_eq hg _ replica (Finset.mem_range.mp hrange) (fun _ => hungated), hchance,
      holdProbability_congr hg.coherent (Finset.mem_range.mp hrange) _ hnode]
  · apply Finset.prod_congr rfl
    intro n hn
    obtain ⟨hrange, hgated⟩ := Finset.mem_filter.mp hn
    rw [mul_comm, nodeProbability_mul_latent _ replica hgated, hchance,
      world_latent_eq hl replica hgated,
      gatedProbability_congr hg.coherent (Finset.mem_range.mp hrange) _ hnode]

/-- The latent variables of a replica summed out, what is left of a node is its chance. -/
theorem latents_sum (hl : l.Describes g bayesian) (hg : g.Proper) (replica : Nat)
    (a : Assignment) :
    sumStates (g.stateCount bayesian) (l.latentVars replica)
        (fun b => g.replicaProbability bayesian (l.world b) replica) a =
      ∏ n ∈ Finset.range g.nodeCount,
        g.holdProbability n (g.chanceOf bayesian (l.world a) n) ((l.world a).node replica) := by
  cases bayesian with
  | false =>
      have hnone : l.latentVars replica = [] := by
        unfold VariableLayout.latentVars VariableLayout.latentCount
        rw [hl.bayesian_eq]
        rfl
      rw [hnone]
      change ((List.range g.nodeCount).map (g.nodeProbability false (l.world a) replica)).prod * 1 =
        _
      rw [mul_one, prod_nodes]
      apply Finset.prod_congr rfl
      intro n hn
      exact nodeProbability_eq hg _ replica (Finset.mem_range.mp hn) nofun
  | true =>
      set holds := (l.world a).node replica
      set chance := g.chanceOf true (l.world a)
      set parts : List (List Nat × (Assignment → ℚ)) := g.gatedNodes.map (fun n =>
        ([g.gateVar l replica n], fun b =>
          g.gatedProbability n (chance n) holds (decide (b (g.gateVar l replica n) = 1))))
        with hparts
      have hvars : l.latentVars replica = parts.flatMap Prod.fst := by
        rw [← gateVars_eq hl replica, hparts, List.flatMap_map]
        exact List.map_eq_flatMap
      have hindependent : parts.Pairwise (fun part later =>
          DependsOn part.2 {v | v ∉ later.1} ∧ DependsOn later.2 {v | v ∉ part.1}) := by
        rw [hparts, List.pairwise_map]
        apply (gatedNodes_nodup g).imp_of_mem
        intro n m hn hm hne
        have hvars : g.gateVar l replica n ≠ g.gateVar l replica m := fun heq =>
          hne ((List.idxOf_inj hn).mp (Nat.add_left_cancel heq))
        constructor
        · intro b c hbc
          dsimp only
          rw [hbc _ (by simpa using hvars)]
        · intro b c hbc
          dsimp only
          rw [hbc _ (by simpa using hvars.symm)]
      have hsplit : ∀ b : Assignment, (∀ v ∉ l.latentVars replica, b v = a v) →
          g.replicaProbability true (l.world b) replica =
            (∏ n ∈ Finset.range g.nodeCount with n ∉ g.gatedNodes,
              g.holdProbability n (chance n) holds) * (parts.map (fun part => part.2 b)).prod := by
        intro b hb
        rw [replicaProbability_split hl hg replica hb, hparts, List.map_map]
        rfl
      have hsums : ∀ n, sumStates (g.stateCount true) [g.gateVar l replica n]
          (fun b => g.gatedProbability n (chance n) holds
            (decide (b (g.gateVar l replica n) = 1))) a = g.holdProbability n (chance n) holds := by
        intro n
        rw [sumStates_binary (gateVar_states hl replica n)]
        simp only [Function.update_self, zero_ne_one, decide_false, decide_true]
        exact g.gatedProbability_sum n (chance n) holds
      rw [sumStates_congr_off hsplit, hvars, sumStates_prod hindependent
        (fun _ _ => (dependsOn_const _).mono (Set.empty_subset _)), hparts]
      simp only [List.map_map, Function.comp_def, hsums]
      rw [prod_gatedNodes, mul_comm, Finset.prod_filter_mul_prod_filter_not]

/-- What an event says depends on the nodes of the graph only. -/
def Within (g : CausalGraph ℚ) (event : (Nat → Bool) → Prop) : Prop :=
  ∀ holds other, (∀ n < g.nodeCount, holds n = other n) → (event holds ↔ event other)

def truths (a : Assignment) (n : Nat) : Bool :=
  decide (a n = 1)

/-- The probability that the nodes of a replica are as an event says, given the chance of each. -/
def replicaMass (g : CausalGraph ℚ) (chances : Nat → ℚ) (event : (Nat → Bool) → Prop)
    [DecidablePred event] : ℚ :=
  sumStates (fun _ => 2) (List.range g.nodeCount)
    (fun a =>
      if event (truths a) then
        ∏ n ∈ Finset.range g.nodeCount, g.holdProbability n (chances n) (truths a)
      else 0)
    (fun _ => 0)

section Replica

variable {event : (Nat → Bool) → Prop} [DecidablePred event]

theorem latents_sum_event (hl : l.Describes g bayesian) (hg : g.Proper) (hevent : g.Within event)
    (replica : Nat) (a : Assignment) :
    sumStates (g.stateCount bayesian) (l.latentVars replica)
        (fun b => if event ((l.world b).node replica) then
          g.replicaProbability bayesian (l.world b) replica else 0) a =
      if event ((l.world a).node replica) then
        ∏ n ∈ Finset.range g.nodeCount,
          g.holdProbability n (g.chanceOf bayesian (l.world a) n) ((l.world a).node replica)
      else 0 := by
  have hsame : ∀ b : Assignment, (∀ v ∉ l.latentVars replica, b v = a v) →
      (event ((l.world b).node replica) ↔ event ((l.world a).node replica)) := by
    intro b hb
    apply hevent
    intro n hn
    apply l.world_node_dependsOn replica n
    rintro v rfl
    exact hb _ (nodeVar_not_mem_latentVars (hl.nodeCount_eq ▸ hn) replica)
  by_cases hholds : event ((l.world a).node replica)
  · rw [if_pos hholds, ← latents_sum hl hg replica a]
    apply sumStates_congr_off
    intro b hb
    rw [if_pos ((hsame b hb).mpr hholds)]
  · rw [if_neg hholds]
    exact (sumStates_congr_off fun b hb => if_neg fun h => hholds ((hsame b hb).mp h)).trans
      (sumStates_zero _ a)

/-- What a replica weighs in an event depends on the parameters and on its own variables. -/
theorem replicaEvent_dependsOn (hl : l.Describes g bayesian) (hg : g.Proper)
    (hevent : g.Within event) (replica : Nat) :
    DependsOn (fun a : Assignment => if event ((l.world a).node replica) then
      g.replicaProbability bayesian (l.world a) replica else 0)
        (l.Parameter ∪ {v | v ∈ l.nodeVars replica ++ l.latentVars replica}) := by
  intro a b hab
  have hprobability := replicaProbability_dependsOn hl hg.coherent replica hab
  dsimp only at hprobability ⊢
  rw [hprobability]
  apply if_congr _ rfl rfl
  apply hevent
  intro n hn
  apply l.world_node_dependsOn replica n
  rintro v rfl
  have hown : l.nodeVar replica n ∈ l.nodeVars replica :=
    List.mem_map_of_mem (List.mem_range.mpr (hl.nodeCount_eq.symm ▸ hn))
  exact hab _ (Or.inr (List.mem_append_left _ hown))

theorem replicaEvent_off (hl : l.Describes g bayesian) (hg : g.Proper) (hevent : g.Within event)
    {replica other : Nat} (hne : replica ≠ other) :
    DependsOn (fun a : Assignment => if event ((l.world a).node replica) then
      g.replicaProbability bayesian (l.world a) replica else 0)
        {v | v ∉ l.nodeVars other ++ l.latentVars other} := by
  apply (replicaEvent_dependsOn hl hg hevent replica).mono
  rintro v (hparameter | hblock) hown
  · exact block_not_parameter (replicaVars_subset_block hown) hparameter
  · exact not_mem_block_of_ne hne (replicaVars_subset_block hblock)
      (replicaVars_subset_block hown)

/-- Summed over its own variables, a replica weighs as much as its event is probable. -/
theorem replica_sum (hl : l.Describes g bayesian) (hg : g.Proper) (hevent : g.Within event)
    (replica : Nat) (a : Assignment) :
    sumStates (g.stateCount bayesian) (l.nodeVars replica ++ l.latentVars replica)
        (fun b => if event ((l.world b).node replica) then
          g.replicaProbability bayesian (l.world b) replica else 0) a =
      g.replicaMass (g.chanceOf bayesian (l.world a)) event := by
  set pairs : List (Nat × Nat) :=
    (List.range g.nodeCount).map (fun n => (l.nodeVar replica n, n)) with hpairs
  have hfst : pairs.map Prod.fst = l.nodeVars replica := by
    rw [hpairs, List.map_map, ← hl.nodeCount_eq]
    rfl
  have hsnd : pairs.map Prod.snd = List.range g.nodeCount := by
    rw [hpairs, List.map_map]
    exact List.map_id _
  rw [sumStates_perm List.perm_append_comm, sumStates_append]
  simp only [funext (latents_sum_event hl hg hevent replica)]
  unfold replicaMass
  rw [← hfst, ← hsnd]
  apply sumStates_rename_off
  · rw [hpairs, List.map_map]
    exact List.nodup_range.map (fun n m heq => Nat.add_left_cancel heq)
  · rw [hsnd]
    exact List.nodup_range
  · intro p hp
    obtain ⟨n, _, rfl⟩ := List.mem_map.mp hp
    exact nodeVar_states hl replica n
  · intro b c hb _ hbc
    rw [hfst] at hb
    have hnode : ∀ n < g.nodeCount, (l.world b).node replica n = truths c n := by
      intro n hn
      have hpair := hbc (l.nodeVar replica n, n)
        (List.mem_map_of_mem (List.mem_range.mpr hn))
      unfold truths VariableLayout.world
      dsimp only at hpair ⊢
      rw [hpair]
    have hchance : ∀ n, g.chanceOf bayesian (l.world b) n = g.chanceOf bayesian (l.world a) n :=
      chanceOf_off hl (fun v hv => replicaVars_subset_block (List.mem_append_left _ hv)) hb
    apply if_congr (hevent _ _ hnode) _ rfl
    apply Finset.prod_congr rfl
    intro n hn
    rw [hchance, holdProbability_congr hg.coherent (Finset.mem_range.mp hn) _ hnode]

end Replica

/-! ## All replicas -/

/-- The world of some draws. -/
def drawn (a : Assignment) : World :=
  ⟨a, fun _ _ => false, fun _ _ => false⟩

def drawWeight (g : CausalGraph ℚ) (bayesian : Bool) (dist state : Nat) : ℚ :=
  match g.dists[dist]? with
  | none => 1
  | some d => d.drawProbability bayesian state

theorem drawsProbability_eq (g : CausalGraph ℚ) (bayesian : Bool) (a : Assignment) :
    g.drawsProbability bayesian (drawn a) =
      ((List.range g.distCount).map (fun dist => g.drawWeight bayesian dist (a dist))).prod := by
  have hplaces : List.range g.distCount = g.dists.zipIdx.map Prod.snd := by
    rw [List.zipIdx_map_snd, List.range_eq_range']
    rfl
  unfold drawsProbability
  rw [hplaces, List.map_map]
  congr 1
  apply List.map_congr_left
  rintro ⟨d, dist⟩ hentry
  unfold drawWeight
  rw [Function.comp_apply, List.mem_zipIdx_iff_getElem?.mp hentry]
  rfl

/-- The weight of a world in such an event is a product of what its draws and its replicas weigh. -/
theorem world_weight_split {w : World} {repetitions : Nat} {event : Prop} [Decidable event]
    {draws : Prop} [Decidable draws] {events : Nat → Prop} [∀ r, Decidable (events r)]
    (hevent : event ↔ draws ∧ ∀ r ≤ repetitions, events r) :
    (if event then g.worldProbability bayesian w repetitions else 0) =
      (if draws then g.drawsProbability bayesian w else 0) *
        ((List.range (repetitions + 1)).map (fun r =>
          if events r then g.replicaProbability bayesian w r else 0)).prod := by
  by_cases hdraws : draws
  · by_cases hall : ∀ r ≤ repetitions, events r
    · have hmap : (List.range (repetitions + 1)).map (fun r =>
          if events r then g.replicaProbability bayesian w r else 0) =
            (List.range (repetitions + 1)).map (g.replicaProbability bayesian w) := by
        apply List.map_congr_left
        intro r hr
        rw [if_pos (hall r (Nat.le_of_lt_succ (List.mem_range.mp hr)))]
      rw [if_pos (hevent.mpr ⟨hdraws, hall⟩), if_pos hdraws, hmap, mul_comm]
      rfl
    · have hzero : ((List.range (repetitions + 1)).map (fun r =>
          if events r then g.replicaProbability bayesian w r else 0)).prod = 0 := by
        obtain ⟨r, hr, hfails⟩ := not_forall₂.mp hall
        apply List.prod_eq_zero
        exact List.mem_map.mpr
          ⟨r, List.mem_range.mpr (Nat.lt_succ_of_le hr), if_neg hfails⟩
      rw [if_neg (fun h => hall (hevent.mp h).2), hzero, mul_zero]
  · rw [if_neg (fun h => hdraws (hevent.mp h).1), if_neg hdraws, zero_mul]

theorem drawsEvent_off (hl : l.Describes g bayesian) {draws : Assignment → Prop}
    [DecidablePred draws] (hdraws : DependsOn draws {dist | dist < g.distCount}) (replica : Nat) :
    DependsOn (fun a : Assignment =>
      if draws a then g.drawsProbability bayesian (l.world a) else 0)
        {v | v ∉ l.nodeVars replica ++ l.latentVars replica} := by
  intro a b hab
  have hparameter : ∀ v ∈ l.Parameter, a v = b v := fun v hv =>
    hab v (fun hown => block_not_parameter (replicaVars_subset_block hown) hv)
  have hprobability := drawsProbability_dependsOn hl hparameter
  have hsame : draws a = draws b :=
    hdraws (fun dist hdist => hparameter dist (hdist.trans_eq hl.distCount_eq.symm))
  dsimp only at hprobability ⊢
  rw [hprobability]
  exact if_congr (iff_of_eq hsame) rfl rfl

/-- The probability of an event that puts a condition on the draws and one on each replica. -/
theorem probability_factors (hg : g.Proper) {repetitions : Nat} {event : World → Prop}
    [DecidablePred event] {draws : Assignment → Prop} [DecidablePred draws]
    {events : Nat → (Nat → Bool) → Prop} [∀ r, DecidablePred (events r)]
    (hevent : ∀ w, event w ↔ draws w.draw ∧ ∀ r ≤ repetitions, events r (w.node r))
    (hdraws : DependsOn draws {dist | dist < g.distCount})
    (hevents : ∀ r, g.Within (events r)) :
    g.probability bayesian repetitions event =
      sumStates (g.stateCount bayesian) (List.range g.distCount)
        (fun a =>
          (if draws a then g.drawsProbability bayesian (drawn a) else 0) *
            ((List.range (repetitions + 1)).map (fun r =>
              g.replicaMass (g.chanceOf bayesian (drawn a)) (events r))).prod)
        (fun _ => 0) := by
  set l := g.worldLayout bayesian repetitions with hlayout
  have hl : l.Describes g bayesian := worldLayout_describes g bayesian repetitions
  set parts : List (List Nat × (Assignment → ℚ)) :=
    (List.range (repetitions + 1)).map (fun r => (l.nodeVars r ++ l.latentVars r,
      fun a => if events r ((l.world a).node r) then
        g.replicaProbability bayesian (l.world a) r else 0)) with hparts
  have hindependent : parts.Pairwise (fun part later =>
      DependsOn part.2 {v | v ∉ later.1} ∧ DependsOn later.2 {v | v ∉ part.1}) := by
    rw [hparts, List.pairwise_map]
    exact List.nodup_range.imp (fun hne =>
      ⟨replicaEvent_off hl hg (hevents _) hne, replicaEvent_off hl hg (hevents _) hne.symm⟩)
  have houter : ∀ part ∈ parts, DependsOn (fun a : Assignment =>
      if draws a then g.drawsProbability bayesian (l.world a) else 0) {v | v ∉ part.1} := by
    intro part hpart
    obtain ⟨r, _, rfl⟩ := List.mem_map.mp hpart
    exact drawsEvent_off hl hdraws r
  have hvars : l.worldVars = parts.flatMap Prod.fst ++ List.range g.distCount := by
    rw [hparts, List.flatMap_map]
    rfl
  have hweight : (fun a => if event (l.world a) then
      g.worldProbability bayesian (l.world a) repetitions else 0) =
        fun a => (if draws a then g.drawsProbability bayesian (l.world a) else 0) *
          (parts.map (fun part => part.2 a)).prod := by
    funext a
    rw [hparts, List.map_map]
    exact world_weight_split (hevent (l.world a))
  unfold probability
  dsimp only
  rw [← hlayout, hvars, sumStates_append, hweight, sumStates_prod hindependent houter]
  simp only [hparts, List.map_map, Function.comp_def, replica_sum hl hg (hevents _)]
  rfl

end CausalGraph

end DerivationBelief

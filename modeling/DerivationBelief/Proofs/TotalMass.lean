import DerivationBelief.Proofs.GenerativeModel
import Mathlib.Tactic

/-!
# The probabilities of all worlds add up to one

Every probability of the model depends on its own variable and on variables that come before it: the
parameters first, then for each replica the latent variables and the nodes, bodies before heads.
Each adds up to one over its own variable, so from the last variable to the first all of them do.
-/

namespace DerivationBelief

variable {g : CausalGraph ℚ} {bayesian : Bool} {l : VariableLayout}

/-! ## Variables of different kinds -/

namespace VariableLayout

def Parameter (l : VariableLayout) : Set Nat :=
  {v | v < l.distCount}

def Latent (l : VariableLayout) (replica : Nat) : Set Nat :=
  {v | l.offset replica + l.nodeCount ≤ v ∧
    v < l.offset replica + l.nodeCount + l.latentCount}

def Block (l : VariableLayout) (replica : Nat) : Set Nat :=
  {v | l.offset replica ≤ v ∧ v < l.offset (replica + 1)}

theorem offset_succ (l : VariableLayout) (replica : Nat) :
    l.offset (replica + 1) = l.offset replica + l.shift := by
  unfold offset
  ring

theorem distCount_le_offset (l : VariableLayout) (replica : Nat) :
    l.distCount ≤ l.offset replica :=
  Nat.le_add_right _ _

theorem offset_mono {r s : Nat} (hle : r ≤ s) : l.offset r ≤ l.offset s := by
  unfold offset
  exact Nat.add_le_add_left (Nat.mul_le_mul_right _ hle) _

theorem not_mem_block_of_ne {r s v : Nat} (hne : r ≠ s) (hv : v ∈ l.Block r) :
    v ∉ l.Block s := by
  rintro ⟨hlow, hhigh⟩
  rcases Nat.lt_or_gt_of_ne hne with hlt | hgt
  · have hle : l.offset (r + 1) ≤ l.offset s := offset_mono hlt
    exact absurd hv.2 (by omega)
  · have hle : l.offset (s + 1) ≤ l.offset r := offset_mono hgt
    exact absurd hv.1 (by omega)

theorem block_not_parameter {replica v : Nat} (hv : v ∈ l.Block replica) : v ∉ l.Parameter := by
  intro hparameter
  have hle := l.distCount_le_offset replica
  have hlow := hv.1
  unfold Parameter at hparameter
  rw [Set.mem_ofPred_eq] at hparameter
  omega

theorem world_node_dependsOn (l : VariableLayout) (replica n : Nat) :
    DependsOn (fun a => (l.world a).node replica n) {l.nodeVar replica n} := by
  intro a b hab
  change decide (a _ = 1) = decide (b _ = 1)
  rw [hab _ rfl]

theorem world_latent_dependsOn (l : VariableLayout) (replica n : Nat) :
    DependsOn (fun a => (l.world a).latent replica n) (l.Latent replica) := by
  intro a b hab
  unfold world latentVar?
  dsimp only
  split
  · rename_i v hv
    split at hv
    · rename_i hbayesian
      obtain ⟨place, hplace, rfl⟩ := Option.map_eq_some_iff.mp hv
      obtain ⟨hmem, rfl⟩ := Arrival.position?_eq_some_iff.mp hplace
      have hlt := List.idxOf_lt_length_of_mem hmem
      rw [hab]
      refine ⟨Nat.le_add_right _ _, ?_⟩
      unfold latentCount
      rw [if_pos hbayesian]
      omega
    · cases hv
  · rfl

end VariableLayout

/-! ## What the probabilities depend on -/

namespace CausalGraph

open VariableLayout

theorem draw_eq (hl : l.Describes g bayesian) {a b : Assignment}
    (hab : ∀ v ∈ l.Parameter, a v = b v) {dist : Nat} (hdist : dist < g.distCount) :
    (l.world a).draw dist = (l.world b).draw dist := by
  apply hab
  rw [← hl.distCount_eq] at hdist
  exact hdist

theorem chanceOf_dependsOn (hl : l.Describes g bayesian) (n : Nat) :
    DependsOn (fun a => g.chanceOf bayesian (l.world a) n) l.Parameter := by
  intro a b hab
  unfold chanceOf
  dsimp only
  cases g.distOf? n with
  | none => rfl
  | some dist =>
      dsimp only
      cases hd : g.dists[dist]? with
      | none => rfl
      | some d =>
          dsimp only
          rw [draw_eq hl hab (List.getElem?_eq_some_iff.mp hd).1]

theorem lets_dependsOn (hl : l.Describes g bayesian) (hg : g.Coherent) (replica n : Nat) :
    DependsOn (fun a => g.lets bayesian (l.world a) replica n)
      (l.Parameter ∪ l.Latent replica) := by
  intro a b hab
  have hlatent := l.world_latent_dependsOn replica n (fun v hv => hab v (Or.inr hv))
  unfold lets
  dsimp only at hlatent ⊢
  cases hdist : g.distOf? n with
  | none => rfl
  | some dist =>
      have hlt := (hg.stochastic_lt _ (Arrival.mem_of_get? hdist)).2
      dsimp only
      rw [hlatent, draw_eq hl (fun v hv => hab v (Or.inl hv)) hlt]

theorem derivation?_subset {n : Nat} {connective : Connective} {body : List Nat}
    (hderivation : g.derivation? n = some (connective, body)) : body ⊆ g.bodyOf n := by
  unfold derivation? at hderivation
  unfold bodyOf
  cases hsum : g.sum? n with
  | some own =>
      rw [hsum] at hderivation
      cases hderivation
      exact List.subset_append_left _ _
  | none =>
      rw [hsum] at hderivation
      cases hprod : g.prod? n with
      | some own =>
          rw [hprod] at hderivation
          cases hderivation
          exact List.subset_append_right _ _
      | none =>
          rw [hprod] at hderivation
          cases hderivation

theorem derives_congr (connective : Connective) {body : List Nat} {p q : Nat → Bool}
    (hsame : ∀ b ∈ body, p b = q b) : connective.derives body p = connective.derives body q := by
  have hmap : body.map p = body.map q := List.map_congr_left hsame
  cases connective with
  | any =>
      unfold Connective.derives
      rw [← Function.id_comp p, ← Function.id_comp q, ← List.any_map, ← List.any_map, hmap]
  | all =>
      unfold Connective.derives
      rw [← Function.id_comp p, ← Function.id_comp q, ← List.all_map, ← List.all_map, hmap]

/-- The variables that the value of the body of a node depends on. -/
def BodyVars (g : CausalGraph ℚ) (l : VariableLayout) (replica n : Nat) : Set Nat :=
  {v | ∃ b ∈ g.bodyOf n, v = l.nodeVar replica b}

theorem derived_dependsOn (hl : l.Describes g bayesian) (hg : g.Coherent) {replica n : Nat}
    {connective : Connective} {body : List Nat}
    (hderivation : g.derivation? n = some (connective, body)) :
    DependsOn (fun a => g.lets bayesian (l.world a) replica n &&
        connective.derives body ((l.world a).node replica))
      (g.BodyVars l replica n ∪ (l.Parameter ∪ l.Latent replica)) := by
  intro a b hab
  have hlets := lets_dependsOn hl hg replica n (fun v hv => hab v (Or.inr hv))
  have hbody : connective.derives body ((l.world a).node replica) =
      connective.derives body ((l.world b).node replica) := by
    apply derives_congr
    intro c hc
    apply l.world_node_dependsOn replica c
    rintro v rfl
    exact hab _ (Or.inl ⟨c, derivation?_subset hderivation hc, rfl⟩)
  dsimp only at hlets ⊢
  rw [hlets, hbody]

theorem nodeProbability_dependsOn (hl : l.Describes g bayesian) (hg : g.Coherent)
    (replica n : Nat) :
    DependsOn (fun a => g.nodeProbability bayesian (l.world a) replica n)
      ({l.nodeVar replica n} ∪
        (g.BodyVars l replica n ∪ (l.Parameter ∪ l.Latent replica))) := by
  intro a b hab
  have hnode := l.world_node_dependsOn replica n (fun v hv => hab v (Or.inl hv))
  unfold nodeProbability
  dsimp only at hnode ⊢
  rw [hnode]
  cases hderivation : g.derivation? n with
  | none =>
      have hchance := chanceOf_dependsOn hl n (fun v hv => hab v (Or.inr (Or.inr (Or.inl hv))))
      dsimp only at hchance ⊢
      rw [hchance]
  | some derivation =>
      have hderived := derived_dependsOn hl hg hderivation (fun v hv => hab v (Or.inr hv))
      dsimp only at hderived ⊢
      rw [hderived]

theorem latentProbability_dependsOn (hl : l.Describes g bayesian) (replica n : Nat) :
    DependsOn (fun a => g.latentProbability bayesian (l.world a) replica n)
      ({v | l.latentVar? replica n = some v} ∪ l.Parameter) := by
  intro a b hab
  have hchance := chanceOf_dependsOn hl n (fun v hv => hab v (Or.inr hv))
  have hlatent : (l.world a).latent replica n = (l.world b).latent replica n := by
    unfold VariableLayout.world
    dsimp only
    split
    next v hv => rw [hab v (Or.inl hv)]
    next => rfl
  unfold latentProbability
  dsimp only at hchance ⊢
  rw [hchance, hlatent]

/-! ## Each probability adds up to one over its own variable -/

theorem stateCount_of_ge {v : Nat} (hv : g.distCount ≤ v) : g.stateCount bayesian v = 2 := by
  unfold stateCount
  rw [List.getElem?_eq_none hv]
  split <;> rfl

theorem sumStates_binary {card : Nat → Nat} {v : Nat} (hv : card v = 2)
    (weight : Assignment → ℚ) (a : Assignment) :
    sumStates card [v] weight a =
      weight (Function.update a v 0) + weight (Function.update a v 1) := by
  simp [sumStates, sumState, hv, Finset.sum_range_succ]

theorem agreement_sum (expected : Bool) :
    agreement false expected + agreement true expected = 1 := by
  cases expected <;> simp [agreement]

theorem chance_sum (truth : ℚ) : Factor.chance truth false + Factor.chance truth true = 1 := by
  simp [Factor.chance]

theorem derives_of_mem_bodyOf {b n : Nat} (hb : b ∈ g.bodyOf n) : g.Derives b n := by
  have hmem : ∀ derivations : List (Nat × List Nat), derivations ⊆ g.sums ++ g.prods →
      b ∈ (Arrival.get? derivations n).getD [] → g.Derives b n := by
    intro derivations hsubset hbody
    cases hget : Arrival.get? derivations n with
    | none =>
        rw [hget] at hbody
        cases hbody
    | some body =>
        rw [hget, Option.getD_some] at hbody
        exact List.mem_flatMap.mpr ⟨(n, body), hsubset (Arrival.mem_of_get? hget),
          List.mem_map.mpr ⟨b, hbody, rfl⟩⟩
  rcases List.mem_append.mp hb with hsum | hprod
  · exact hmem g.sums (List.subset_append_left _ _) hsum
  · exact hmem g.prods (List.subset_append_right _ _) hprod

theorem nodeVar_not_parameter (l : VariableLayout) (replica n : Nat) :
    l.nodeVar replica n ∉ l.Parameter := by
  intro hlt
  have hle := l.distCount_le_offset replica
  unfold Parameter nodeVar at hlt
  rw [Set.mem_ofPred_eq] at hlt
  omega

theorem nodeVar_not_latent {n : Nat} (hn : n < l.nodeCount) (replica : Nat) :
    l.nodeVar replica n ∉ l.Latent replica := by
  rintro ⟨hle, _⟩
  unfold nodeVar at hle
  omega

theorem nodeVar_not_bodyVars (hacyclic : Acyclic g.Derives) (replica : Nat) {n : Nat} :
    l.nodeVar replica n ∉ g.BodyVars l replica n := by
  rintro ⟨b, hb, heq⟩
  have hsame : b = n := by
    unfold nodeVar at heq
    omega
  subst b
  exact hacyclic n (Relation.TransGen.single (derives_of_mem_bodyOf hb))

theorem nodeProbability_sum (hl : l.Describes g bayesian) (hg : g.Coherent)
    (hacyclic : Acyclic g.Derives) (replica : Nat) {n : Nat} (hn : n < g.nodeCount)
    (a : Assignment) :
    sumStates (g.stateCount bayesian) [l.nodeVar replica n]
      (fun b => g.nodeProbability bayesian (l.world b) replica n) a = 1 := by
  have hparameter := nodeVar_not_parameter l replica n
  have hlatent : l.nodeVar replica n ∉ l.Latent replica :=
    nodeVar_not_latent (hl.nodeCount_eq ▸ hn) replica
  have hbinary : g.stateCount bayesian (l.nodeVar replica n) = 2 := by
    apply stateCount_of_ge
    rw [← hl.distCount_eq]
    exact Nat.le_of_not_lt hparameter
  have hown : ∀ s, (l.world (Function.update a (l.nodeVar replica n) s)).node replica n =
      decide (s = 1) := by
    intro s
    unfold world
    simp
  rw [sumStates_binary hbinary]
  unfold nodeProbability
  cases hderivation : g.derivation? n with
  | none =>
      have hchance := update_of_dependsOn (chanceOf_dependsOn hl n) hparameter a
      dsimp only at hchance ⊢
      rw [hchance, hchance, hown, hown]
      exact chance_sum _
  | some derivation =>
      have hscope : l.nodeVar replica n ∉
          g.BodyVars l replica n ∪ (l.Parameter ∪ l.Latent replica) := by
        rintro (hbody | hparam | hlat)
        · exact nodeVar_not_bodyVars hacyclic replica hbody
        · exact hparameter hparam
        · exact hlatent hlat
      have hderived := update_of_dependsOn (derived_dependsOn hl hg hderivation) hscope a
      dsimp only at hderived ⊢
      rw [hderived, hderived, hown, hown]
      exact agreement_sum _

theorem latentProbability_sum (hl : l.Describes g bayesian) {replica n v : Nat}
    (hv : l.latentVar? replica n = some v) (hparameter : v ∉ l.Parameter) (a : Assignment) :
    sumStates (g.stateCount bayesian) [v]
      (fun b => g.latentProbability bayesian (l.world b) replica n) a = 1 := by
  have hbinary : g.stateCount bayesian v = 2 := by
    apply stateCount_of_ge
    rw [← hl.distCount_eq]
    exact Nat.le_of_not_lt hparameter
  have hown : ∀ s, (l.world (Function.update a v s)).latent replica n = decide (s = 1) := by
    intro s
    unfold world
    dsimp only
    rw [hv]
    simp
  have hchance := update_of_dependsOn (chanceOf_dependsOn hl n) hparameter a
  rw [sumStates_binary hbinary]
  unfold latentProbability
  rw [hchance, hchance, hown, hown]
  exact chance_sum _

/-! ## One replica -/

theorem latentVar?_of_mem (hl : l.Describes g true) {n : Nat} (hn : n ∈ g.gatedNodes)
    (replica : Nat) :
    l.latentVar? replica n =
      some (l.offset replica + l.nodeCount + g.gatedNodes.idxOf n) := by
  unfold latentVar?
  rw [hl.bayesian_eq, hl.latents_eq, Arrival.position?_eq_some_iff.mpr ⟨hn, rfl⟩]
  rfl

theorem gatedNodes_nodup (g : CausalGraph ℚ) : g.gatedNodes.Nodup :=
  List.nodup_range.filter _

section Parts

variable (g bayesian l)

def nodePart (replica n : Nat) : List Nat × (Assignment → ℚ) :=
  ([l.nodeVar replica n], fun a => g.nodeProbability bayesian (l.world a) replica n)

def latentPart (replica n : Nat) : List Nat × (Assignment → ℚ) :=
  ([l.offset replica + l.nodeCount + g.gatedNodes.idxOf n],
    fun a => g.latentProbability bayesian (l.world a) replica n)

end Parts

theorem nodeParts_later (hl : l.Describes g bayesian) (hg : g.Coherent) (replica : Nat)
    {order : List Nat} (horder : order.Perm (List.range g.nodeCount))
    (hsorted : order.Pairwise (fun x y => ¬ g.Derives y x)) :
    (order.reverse.map (nodePart g bayesian l replica)).Pairwise
      (fun part later => DependsOn later.2 {v | v ∉ part.1}) := by
  have hnodup : order.Nodup := horder.nodup_iff.mpr List.nodup_range
  rw [List.pairwise_map, List.pairwise_reverse]
  apply (hsorted.and hnodup).imp_of_mem
  rintro x y _ hy ⟨hstep, hne⟩
  have hyCount : y < l.nodeCount := by
    rw [hl.nodeCount_eq]
    exact List.mem_range.mp (horder.mem_iff.mp hy)
  apply (nodeProbability_dependsOn hl hg replica x).mono
  rintro v hv hown
  rw [nodePart, List.mem_singleton] at hown
  subst v
  rcases hv with hself | ⟨b, hb, heq⟩ | hparameter | hlatent
  · have hself : l.nodeVar replica y = l.nodeVar replica x := hself
    exact hne (Nat.add_left_cancel hself).symm
  · have hsame : y = b := Nat.add_left_cancel heq
    subst b
    exact hstep (derives_of_mem_bodyOf hb)
  · exact nodeVar_not_parameter l replica y hparameter
  · exact nodeVar_not_latent hyCount replica hlatent

theorem latentProbability_dependsOn_own (hl : l.Describes g true) {replica n : Nat}
    (hn : n ∈ g.gatedNodes) :
    DependsOn (latentPart g true l replica n).2
      ({l.offset replica + l.nodeCount + g.gatedNodes.idxOf n} ∪ l.Parameter) := by
  apply (latentProbability_dependsOn hl replica n).mono
  apply Set.union_subset_union_left
  intro v hv
  have hsome : l.latentVar? replica n = some v := hv
  rw [latentVar?_of_mem hl hn, Option.some.injEq] at hsome
  exact hsome.symm

theorem latentParts_later (hl : l.Describes g true) (replica : Nat) :
    (g.gatedNodes.map (latentPart g true l replica)).Pairwise
      (fun part later => DependsOn later.2 {v | v ∉ part.1}) := by
  rw [List.pairwise_map]
  apply (gatedNodes_nodup g).imp_of_mem
  intro x y hx hy hne
  apply (latentProbability_dependsOn_own hl hy).mono
  rintro v hv hown
  rw [latentPart, List.mem_singleton] at hown
  subst v
  rcases hv with hself | hparameter
  · have hsame : g.gatedNodes.idxOf x = g.gatedNodes.idxOf y := Nat.add_left_cancel hself
    exact hne ((List.idxOf_inj hx).mp hsame)
  · have hle := l.distCount_le_offset replica
    unfold Parameter at hparameter
    rw [Set.mem_ofPred_eq] at hparameter
    omega

/-- The parts of a replica, heads before bodies and nodes before latent variables. -/
def replicaParts (g : CausalGraph ℚ) (bayesian : Bool) (l : VariableLayout) (order : List Nat)
    (replica : Nat) : List (List Nat × (Assignment → ℚ)) :=
  order.reverse.map (nodePart g bayesian l replica) ++
    if bayesian then g.gatedNodes.map (latentPart g bayesian l replica) else []

theorem replicaParts_later (hl : l.Describes g bayesian) (hg : g.Coherent) (replica : Nat)
    {order : List Nat} (horder : order.Perm (List.range g.nodeCount))
    (hsorted : order.Pairwise (fun x y => ¬ g.Derives y x)) :
    (replicaParts g bayesian l order replica).Pairwise
      (fun part later => DependsOn later.2 {v | v ∉ part.1}) := by
  have hnodes := nodeParts_later hl hg replica horder hsorted
  unfold replicaParts
  cases bayesian with
  | false => rwa [if_neg Bool.false_ne_true, List.append_nil]
  | true =>
      rw [if_pos rfl, List.pairwise_append]
      refine ⟨hnodes, latentParts_later hl replica, ?_⟩
      rintro part hpart later hlater
      obtain ⟨x, hx, rfl⟩ := List.mem_map.mp hpart
      obtain ⟨n, hn, rfl⟩ := List.mem_map.mp hlater
      have hxCount : x < l.nodeCount := by
        rw [hl.nodeCount_eq]
        exact List.mem_range.mp (horder.mem_iff.mp (List.mem_reverse.mp hx))
      apply (latentProbability_dependsOn_own hl hn).mono
      rintro v hv hown
      rw [nodePart, List.mem_singleton] at hown
      subst v
      rcases hv with hself | hparameter
      · have hself : l.offset replica + x =
            l.offset replica + l.nodeCount + g.gatedNodes.idxOf n := hself
        omega
      · exact nodeVar_not_parameter l replica x hparameter

theorem latentPart_vars (hl : l.Describes g true) (replica : Nat) :
    (g.gatedNodes.map (latentPart g true l replica)).flatMap Prod.fst = l.latentVars replica := by
  have hplaces : g.gatedNodes.map (fun n => g.gatedNodes.idxOf n) =
      List.range g.gatedNodes.length := by
    apply List.ext_getElem
    · simp
    · intro i hi _
      rw [List.length_map] at hi
      rw [List.getElem_map, List.getElem_range, (gatedNodes_nodup g).idxOf_getElem i hi]
  have hcount : l.latentCount = g.gatedNodes.length := by
    unfold latentCount
    rw [hl.bayesian_eq, hl.latents_eq, if_pos rfl]
  unfold latentVars
  rw [hcount, ← hplaces, List.map_map, List.flatMap_map]
  exact List.map_eq_flatMap.symm

theorem replicaParts_vars (hl : l.Describes g bayesian) (replica : Nat) {order : List Nat}
    (horder : order.Perm (List.range g.nodeCount)) :
    ((replicaParts g bayesian l order replica).flatMap Prod.fst).Perm
      (l.nodeVars replica ++ l.latentVars replica) := by
  have hnodes : ((order.reverse.map (nodePart g bayesian l replica)).flatMap Prod.fst).Perm
      (l.nodeVars replica) := by
    unfold nodeVars
    rw [List.flatMap_map, hl.nodeCount_eq]
    have hmap : order.reverse.flatMap (fun n => (nodePart g bayesian l replica n).1) =
        order.reverse.map (l.nodeVar replica) := List.map_eq_flatMap.symm
    rw [hmap]
    exact ((List.reverse_perm order).trans horder).map _
  unfold replicaParts
  rw [List.flatMap_append]
  apply hnodes.append
  cases bayesian with
  | false =>
      have hnone : l.latentVars replica = [] := by
        unfold latentVars latentCount
        rw [hl.bayesian_eq]
        rfl
      rw [hnone]
      exact List.Perm.refl _
  | true => exact List.Perm.of_eq (latentPart_vars hl replica)

theorem replicaParts_prod (replica : Nat) {order : List Nat}
    (horder : order.Perm (List.range g.nodeCount)) (a : Assignment) :
    ((replicaParts g bayesian l order replica).map (fun part => part.2 a)).prod =
      g.replicaProbability bayesian (l.world a) replica := by
  have hnodes : ((order.reverse.map (nodePart g bayesian l replica)).map
      (fun part => part.2 a)).prod =
        ((List.range g.nodeCount).map (g.nodeProbability bayesian (l.world a) replica)).prod := by
    rw [List.map_map]
    exact (((List.reverse_perm order).trans horder).map _).prod_eq
  unfold replicaParts replicaProbability latentsProbability
  rw [List.map_append, List.prod_append, hnodes]
  cases bayesian with
  | false => rfl
  | true =>
      rw [if_pos rfl, if_pos rfl, List.map_map]
      rfl

/-- What is drawn given, the probabilities of what holds in a replica add up to one. -/
theorem replicaProbability_sum (hl : l.Describes g bayesian) (hg : g.Coherent)
    (hacyclic : Acyclic g.Derives) (replica : Nat) {a : Assignment}
    (ha : InRange (g.stateCount bayesian) a) :
    sumStates (g.stateCount bayesian) (l.nodeVars replica ++ l.latentVars replica)
      (fun b => g.replicaProbability bayesian (l.world b) replica) a = 1 := by
  obtain ⟨order, horder, hsorted⟩ := exists_order hacyclic g.nodeCount
  have hnormal : ∀ part ∈ replicaParts g bayesian l order replica,
      ∀ b, InRange (g.stateCount bayesian) b →
        sumStates (g.stateCount bayesian) part.1 part.2 b = 1 := by
    intro part hpart b _
    rcases List.mem_append.mp hpart with hnode | hlatent
    · obtain ⟨n, hn, rfl⟩ := List.mem_map.mp hnode
      have hcount := List.mem_range.mp (horder.mem_iff.mp (List.mem_reverse.mp hn))
      exact nodeProbability_sum hl hg hacyclic replica hcount b
    · cases bayesian with
      | false => cases hlatent
      | true =>
          obtain ⟨n, hn, rfl⟩ := List.mem_map.mp hlatent
          apply latentProbability_sum hl (latentVar?_of_mem hl hn replica)
          intro hparameter
          have hle := l.distCount_le_offset replica
          unfold Parameter at hparameter
          rw [Set.mem_ofPred_eq] at hparameter
          omega
  have hchain := sumStates_chain hnormal (replicaParts_later hl hg replica horder hsorted) ha
  rw [sumStates_perm (replicaParts_vars hl replica horder)] at hchain
  simp only [replicaParts_prod replica horder] at hchain
  exact hchain

/-! ## All replicas and the parameters -/

theorem nodeVar_mem_block {n : Nat} (hn : n < l.nodeCount) (replica : Nat) :
    l.nodeVar replica n ∈ l.Block replica := by
  have hnext := l.offset_succ replica
  unfold shift at hnext
  constructor
  · exact Nat.le_add_right _ _
  · unfold nodeVar
    omega

theorem latent_subset_block (l : VariableLayout) (replica : Nat) :
    l.Latent replica ⊆ l.Block replica := by
  rintro v ⟨hlow, hhigh⟩
  have hnext := l.offset_succ replica
  unfold shift at hnext
  constructor
  · exact (Nat.le_add_right _ _).trans hlow
  · omega

theorem replicaVars_subset_block {replica v : Nat}
    (hv : v ∈ l.nodeVars replica ++ l.latentVars replica) : v ∈ l.Block replica := by
  rcases List.mem_append.mp hv with hnode | hlatent
  · obtain ⟨n, hn, rfl⟩ := List.mem_map.mp hnode
    exact nodeVar_mem_block (List.mem_range.mp hn) replica
  · obtain ⟨place, hplace, rfl⟩ := List.mem_map.mp hlatent
    apply latent_subset_block l replica
    exact ⟨Nat.le_add_right _ _, Nat.add_lt_add_left (List.mem_range.mp hplace) _⟩

theorem Coherent.bodyOf_lt (hg : g.Coherent) {b n : Nat} (hb : b ∈ g.bodyOf n) :
    b < g.nodeCount := by
  have hmem : ∀ derivations : List (Nat × List Nat), DerivationsOver g.nodeCount derivations →
      b ∈ (Arrival.get? derivations n).getD [] → b < g.nodeCount := by
    intro derivations hover hbody
    cases hget : Arrival.get? derivations n with
    | none =>
        rw [hget] at hbody
        cases hbody
    | some body =>
        rw [hget, Option.getD_some] at hbody
        exact (hover.body (n, body) (Arrival.mem_of_get? hget)).lt b hbody
  rcases List.mem_append.mp hb with hsum | hprod
  · exact hmem g.sums hg.sums hsum
  · exact hmem g.prods hg.prods hprod

theorem replicaProbability_dependsOn (hl : l.Describes g bayesian) (hg : g.Coherent)
    (replica : Nat) :
    DependsOn (fun a => g.replicaProbability bayesian (l.world a) replica)
      (l.Parameter ∪ {v | v ∈ l.nodeVars replica ++ l.latentVars replica}) := by
  have hnode : ∀ n < g.nodeCount,
      l.nodeVar replica n ∈ l.nodeVars replica ++ l.latentVars replica := by
    intro n hn
    rw [← hl.nodeCount_eq] at hn
    exact List.mem_append_left _ (List.mem_map_of_mem (List.mem_range.mpr hn))
  have hlatent : ∀ v ∈ l.Latent replica, v ∈ l.nodeVars replica ++ l.latentVars replica := by
    rintro v ⟨hlow, hhigh⟩
    apply List.mem_append_right
    exact List.mem_map.mpr ⟨v - (l.offset replica + l.nodeCount),
      List.mem_range.mpr (by omega), by omega⟩
  intro a b hab
  unfold replicaProbability latentsProbability
  dsimp only
  congr 1
  · congr 1
    apply List.map_congr_left
    intro n hn
    have hcount := List.mem_range.mp hn
    apply nodeProbability_dependsOn hl hg replica n
    rintro v (hself | ⟨c, hc, rfl⟩ | hparameter | hlat)
    · rw [Set.mem_singleton_iff.mp hself]
      exact hab _ (Or.inr (hnode n hcount))
    · exact hab _ (Or.inr (hnode c (hg.bodyOf_lt hc)))
    · exact hab v (Or.inl hparameter)
    · exact hab v (Or.inr (hlatent v hlat))
  · cases bayesian with
    | false => rfl
    | true =>
        rw [if_pos rfl, if_pos rfl]
        congr 1
        apply List.map_congr_left
        intro n hn
        apply latentProbability_dependsOn_own hl hn
        rintro v (hself | hparameter)
        · rw [Set.mem_singleton_iff.mp hself]
          apply hab _ (Or.inr (hlatent _ _))
          refine ⟨Nat.le_add_right _ _, Nat.add_lt_add_left ?_ _⟩
          unfold latentCount
          rw [hl.bayesian_eq, hl.latents_eq, if_pos rfl]
          exact List.idxOf_lt_length_of_mem hn
        · exact hab v (Or.inl hparameter)

theorem drawsProbability_dependsOn (hl : l.Describes g bayesian) :
    DependsOn (fun a => g.drawsProbability bayesian (l.world a)) l.Parameter := by
  intro a b hab
  unfold drawsProbability
  dsimp only
  congr 1
  apply List.map_congr_left
  rintro ⟨d, dist⟩ hentry
  dsimp only
  rw [draw_eq hl hab (List.snd_lt_of_mem_zipIdx hentry)]

/-- The probability of a world does not depend on the phony variables. -/
theorem worldProbability_dependsOn (hl : l.Describes g bayesian) (hg : g.Coherent) :
    DependsOn (fun a => g.worldProbability bayesian (l.world a) l.repetitions)
      {v | v ∈ l.worldVars} := by
  have hparameter : ∀ v ∈ l.Parameter, v ∈ l.worldVars := fun v hv =>
    List.mem_append_right _ (List.mem_range.mpr hv)
  intro a b hab
  have hdraws := drawsProbability_dependsOn hl (fun v hv => hab v (hparameter v hv))
  unfold worldProbability
  dsimp only at hdraws ⊢
  rw [hdraws]
  congr 2
  apply List.map_congr_left
  intro r hr
  apply replicaProbability_dependsOn hl hg r
  rintro v (hv | hv)
  · exact hab v (hparameter v hv)
  · exact hab v (List.mem_append_left _ (List.mem_flatMap.mpr ⟨r, hr, hv⟩))

theorem sum_getD (values : List ℚ) :
    ∑ i ∈ Finset.range values.length, values.getD i 0 = values.sum := by
  have hvalues : (List.range values.length).map (fun i => values.getD i 0) = values := by
    apply List.ext_getElem
    · simp
    · intro i _ hi
      simp [hi]
  rw [← List.toFinset_range, List.sum_toFinset _ List.nodup_range, hvalues]

theorem drawProbability_sum {d : Distribution ℚ} (hd : d.WellFormed) {dist : Nat}
    (hdist : g.dists[dist]? = some d) :
    ∑ state ∈ Finset.range (g.stateCount bayesian dist), d.drawProbability bayesian state = 1 := by
  unfold stateCount Distribution.drawProbability
  cases bayesian with
  | false =>
      rw [if_neg Bool.false_ne_true, Finset.sum_range_succ, Finset.sum_range_one]
      exact chance_sum d.mean
  | true =>
      rw [if_pos rfl, hdist]
      simp only [if_true]
      rw [hd.length_eq, sum_getD, hd.total]

theorem drawsProbability_sum (hl : l.Describes g bayesian)
    (hdists : ∀ d ∈ g.dists, d.WellFormed) {a : Assignment}
    (ha : InRange (g.stateCount bayesian) a) :
    sumStates (g.stateCount bayesian) (List.range l.distCount)
      (fun b => g.drawsProbability bayesian (l.world b)) a = 1 := by
  set parts : List (List Nat × (Assignment → ℚ)) := g.dists.zipIdx.map (fun entry =>
    ([entry.2], fun b => entry.1.drawProbability bayesian (b entry.2))) with hparts
  have hplaces : g.dists.zipIdx.map Prod.snd = List.range l.distCount := by
    rw [List.zipIdx_map_snd, hl.distCount_eq, List.range_eq_range']
    rfl
  have hnormal : ∀ part ∈ parts, ∀ b, InRange (g.stateCount bayesian) b →
      sumStates (g.stateCount bayesian) part.1 part.2 b = 1 := by
    intro part hpart b _
    obtain ⟨⟨d, dist⟩, hentry, rfl⟩ := List.mem_map.mp hpart
    have hdist := List.mem_zipIdx_iff_getElem?.mp hentry
    simp only [sumStates, sumState, Function.update_self]
    exact drawProbability_sum (hdists d (List.mem_of_getElem? hdist)) hdist
  have hlater : parts.Pairwise (fun part later => DependsOn later.2 {v | v ∉ part.1}) := by
    have hnodup : (g.dists.zipIdx.map Prod.snd).Nodup := hplaces ▸ List.nodup_range
    rw [hparts, List.pairwise_map]
    apply (List.pairwise_map.mp hnodup).imp
    intro x y hne b c hbc
    dsimp only
    rw [hbc]
    intro hmem
    exact hne (List.mem_singleton.mp hmem).symm
  have hchain := sumStates_chain hnormal hlater ha
  have hvars : parts.flatMap Prod.fst = List.range l.distCount := by
    rw [hparts, List.flatMap_map, ← hplaces]
    exact List.map_eq_flatMap.symm
  have hprod : ∀ b : Assignment, (parts.map (fun part => part.2 b)).prod =
      g.drawsProbability bayesian (l.world b) := by
    intro b
    rw [hparts, List.map_map]
    rfl
  rw [hvars] at hchain
  simp only [hprod] at hchain
  exact hchain

/-- The probabilities of all worlds add up to one. -/
theorem worldProbability_sum (hl : l.Describes g bayesian) (hg : g.Coherent)
    (hacyclic : Acyclic g.Derives) (hdists : ∀ d ∈ g.dists, d.WellFormed) {a : Assignment}
    (ha : InRange (g.stateCount bayesian) a) :
    sumStates (g.stateCount bayesian) l.worldVars
      (fun b => g.worldProbability bayesian (l.world b) l.repetitions) a = 1 := by
  set parts : List (List Nat × (Assignment → ℚ)) :=
    (List.range (l.repetitions + 1)).map (fun r => (l.nodeVars r ++ l.latentVars r,
      fun b => g.replicaProbability bayesian (l.world b) r)) ++
      [(List.range l.distCount, fun b => g.drawsProbability bayesian (l.world b))] with hparts
  have hnormal : ∀ part ∈ parts, ∀ b, InRange (g.stateCount bayesian) b →
      sumStates (g.stateCount bayesian) part.1 part.2 b = 1 := by
    intro part hpart b hb
    rcases List.mem_append.mp hpart with hreplica | hdraws
    · obtain ⟨r, _, rfl⟩ := List.mem_map.mp hreplica
      exact replicaProbability_sum hl hg hacyclic r hb
    · rw [List.mem_singleton.mp hdraws]
      exact drawsProbability_sum hl hdists hb
  have hlater : parts.Pairwise (fun part later => DependsOn later.2 {v | v ∉ part.1}) := by
    rw [hparts, List.pairwise_append]
    refine ⟨?_, List.pairwise_singleton _ _, ?_⟩
    · rw [List.pairwise_map]
      apply (@List.nodup_range (l.repetitions + 1)).imp
      intro r s hne
      apply (replicaProbability_dependsOn hl hg s).mono
      rintro v (hparameter | hblock) hown
      · exact block_not_parameter (replicaVars_subset_block hown) hparameter
      · exact not_mem_block_of_ne hne (replicaVars_subset_block hown)
          (replicaVars_subset_block hblock)
    · rintro part hpart later hlater
      obtain ⟨r, _, rfl⟩ := List.mem_map.mp hpart
      rw [List.mem_singleton.mp hlater]
      apply (drawsProbability_dependsOn hl).mono
      intro v hparameter hown
      exact block_not_parameter (replicaVars_subset_block hown) hparameter
  have hchain := sumStates_chain hnormal hlater ha
  have hvars : parts.flatMap Prod.fst = l.worldVars := by
    rw [hparts, List.flatMap_append, List.flatMap_map, List.flatMap_singleton]
    rfl
  have hprod : ∀ b, (parts.map (fun part => part.2 b)).prod =
      g.worldProbability bayesian (l.world b) l.repetitions := by
    intro b
    rw [hparts, List.map_append, List.prod_append, List.map_map, List.map_singleton,
      List.prod_singleton]
    rfl
  rw [hvars] at hchain
  simp only [hprod] at hchain
  exact hchain

end CausalGraph

end DerivationBelief

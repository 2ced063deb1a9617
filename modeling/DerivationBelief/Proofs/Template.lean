import DerivationBelief.Proofs.PhonyDecomposition
import DerivationBelief.Proofs.TotalMass
import Mathlib.Tactic

/-!
# The template of a replica

Lowering a graph that validates never fails.  The template has the clauses of its phony nodes, and
for every node and every latent variable one factor, whose weight in a replica is the probability of
that node or latent variable once the phony nodes have the values of their bodies.
-/

namespace DerivationBelief

/-! ## Slots of a replica -/

def VariableLayout.slots (l : VariableLayout) (replica : Nat) (a : Assignment) : Slot → Nat :=
  a ∘ Slot.resolve (l.offset replica)

/-- Graphs in which every node has one role and every distribution is one. -/
structure CausalGraph.Proper (g : CausalGraph ℚ) : Prop where
  coherent : g.Coherent
  valid : g.validate = .ok ()
  dists : ∀ d ∈ g.dists, d.WellFormed

section Slots

variable {g : CausalGraph ℚ} {bayesian : Bool} {l : VariableLayout} {a : Assignment}

theorem own_slot_lt (hl : l.Describes g bayesian) (ha : InRange (g.stateCount bayesian) a)
    (replica place : Nat) : l.slots replica a (.own place) < 2 := by
  have hge : g.distCount ≤ l.offset replica + place := by
    rw [← hl.distCount_eq]
    exact (l.distCount_le_offset replica).trans (Nat.le_add_right _ _)
  have hlt := ha (l.offset replica + place)
  rwa [CausalGraph.stateCount_of_ge hge] at hlt

theorem value_own_slots (l : VariableLayout) (connective : Connective) (body : List Nat)
    (replica : Nat) (a : Assignment) :
    connective.value ((body.map Slot.own).map (l.slots replica a)) =
      connective.derives body ((l.world a).node replica) := by
  cases connective with
  | any =>
      simp only [Connective.value, Connective.derives, List.any_map]
      rfl
  | all =>
      simp only [Connective.value, Connective.derives, List.all_map]
      rfl

end Slots

namespace FactorGraph

namespace Lowering

variable {c : Lowering ℚ}

/-! ## What stochastic nodes refer to -/

theorem priorOf_ok (hc : c.graph.Proper) {n dist : Nat} (hdist : c.graph.distOf? n = some dist) :
    ∃ d, c.graph.dists[dist]? = some d ∧ c.priorOf n = .ok (dist, d) := by
  have hlt := (hc.coherent.stochastic_lt _ (Arrival.mem_of_get? hdist)).2
  have hget : c.graph.dists[dist]? = some c.graph.dists[dist] := List.getElem?_eq_getElem hlt
  refine ⟨c.graph.dists[dist], hget, ?_⟩
  unfold priorOf
  dsimp only
  rw [hdist, Option.getD_some, hget]

def chances (c : Lowering ℚ) (d : Distribution ℚ) : List ℚ :=
  if c.bayesian then d.supports else [0, 1]

theorem chances_length {d : Distribution ℚ} {dist : Nat} (hd : c.graph.dists[dist]? = some d) :
    (c.chances d).length = c.graph.stateCount c.bayesian dist := by
  unfold chances CausalGraph.stateCount
  rw [hd]
  split <;> rfl

theorem chances_getElem? {d : Distribution ℚ} {dist state : Nat}
    (hd : c.graph.dists[dist]? = some d) (hstate : state < c.graph.stateCount c.bayesian dist) :
    (c.chances d)[state]? = some (d.drawnChance c.bayesian state) := by
  unfold chances Distribution.drawnChance
  unfold CausalGraph.stateCount at hstate
  cases hbayesian : c.bayesian with
  | true =>
      rw [hbayesian, if_pos rfl, hd] at hstate
      dsimp only at hstate
      simp [hstate]
  | false =>
      rw [hbayesian, if_neg Bool.false_ne_true] at hstate
      rcases (by omega : state = 0 ∨ state = 1) with rfl | rfl <;> simp

theorem chances_unit {d : Distribution ℚ} (hd : d.WellFormed) {x : ℚ} (hx : x ∈ c.chances d) :
    0 ≤ x ∧ x ≤ 1 := by
  unfold chances at hx
  split at hx
  · exact hd.unit x hx
  · rcases List.mem_cons.mp hx with rfl | hone
    · norm_num
    · rw [List.mem_singleton.mp hone]
      norm_num

/-- A factor that draws from the distribution of a node weighs as the node's chance says. -/
theorem bernoulli_weight (hc : c.graph.Proper) {l : VariableLayout}
    (hl : l.Describes c.graph c.bayesian) {a : Assignment}
    (ha : InRange (c.graph.stateCount c.bayesian) a) {n dist : Nat} {d : Distribution ℚ}
    (hdist : c.graph.distOf? n = some dist) (hd : c.graph.dists[dist]? = some d)
    (replica place : Nat) :
    (Factor.bernoulli (Slot.own place) (.parameter dist) (c.chances d)).weightAt
        (l.slots replica a) =
      Factor.chance (c.graph.chanceOf c.bayesian (l.world a) n)
        (decide (l.slots replica a (.own place) = 1)) := by
  have hchance : c.graph.chanceOf c.bayesian (l.world a) n =
      d.drawnChance c.bayesian (a dist) := by
    unfold CausalGraph.chanceOf
    rw [hdist]
    dsimp only
    rw [hd]
    rfl
  have hstate : (c.chances d)[l.slots replica a (.parameter dist)]? =
      some (d.drawnChance c.bayesian (a dist)) := chances_getElem? hd (ha dist)
  have hunit := chances_unit (hc.dists d (List.mem_of_getElem? hd)) (List.mem_of_getElem? hstate)
  rw [hchance]
  exact Factor.bernoulli_weightAt (own_slot_lt hl ha replica place) hstate hunit.1 hunit.2

/-! ## Factors that stand for probabilities -/

def slotStates (c : Lowering ℚ) : Slot → Nat
  | .parameter dist => c.graph.stateCount c.bayesian dist
  | .own _ => 2

/-- A factor lists the numbers of states of its variables. -/
def Sized (c : Lowering ℚ) (f : Factor Slot ℚ) : Prop :=
  f.cards = f.vars.map c.slotStates

def product (factors : List (Factor Slot ℚ)) (s : Slot → Nat) : ℚ :=
  (factors.map (fun f => f.weightAt s)).prod

/-- Factors whose product is a probability of every replica whose phony nodes are right. -/
structure Represents (c : Lowering ℚ) (nodes : List PhonyNode) (factors : List (Factor Slot ℚ))
    (probability : World → Nat → ℚ) : Prop where
  sized : ∀ f ∈ factors, Sized c f
  weight_eq : ∀ l : VariableLayout, l.Describes c.graph c.bayesian →
    ∀ a, InRange (c.graph.stateCount c.bayesian) a →
      ∀ replica, (∀ p ∈ nodes, p.Right (l.slots replica a)) →
        product factors (l.slots replica a) = probability (l.world a) replica

theorem slot_lt {l : VariableLayout} (hl : l.Describes c.graph c.bayesian) {a : Assignment}
    (ha : InRange (c.graph.stateCount c.bayesian) a) (replica : Nat) (slot : Slot) :
    l.slots replica a slot < c.slotStates slot := by
  cases slot with
  | parameter dist => exact ha dist
  | own place => exact own_slot_lt hl ha replica place

theorem represents_nil (c : Lowering ℚ) : Represents c [] [] (fun _ _ => 1) where
  sized := by simp
  weight_eq := fun _ _ _ _ _ _ => rfl

theorem Represents.append {nodes more : List PhonyNode} {factors others : List (Factor Slot ℚ)}
    {probability second : World → Nat → ℚ} (hfactors : Represents c nodes factors probability)
    (hothers : Represents c more others second) :
    Represents c (nodes ++ more) (factors ++ others)
      (fun w replica => probability w replica * second w replica) where
  sized := by
    rw [List.forall_mem_append]
    exact ⟨hfactors.sized, hothers.sized⟩
  weight_eq := by
    intro l hl a ha replica hright
    rw [List.forall_mem_append] at hright
    have hfirst := hfactors.weight_eq l hl a ha replica hright.1
    have hsecond := hothers.weight_eq l hl a ha replica hright.2
    unfold product at hfirst hsecond ⊢
    rw [List.map_append, List.prod_append, hfirst, hsecond]

/-- Factors that stand for probabilities one by one do so together. -/
theorem represents_each {β : Type} {items : List β} {factors : List (Factor Slot ℚ)}
    {probability : β → World → Nat → ℚ}
    (heach : List.Forall₂ (fun x f => Represents c [] [f] (probability x)) items factors) :
    Represents c [] factors
      (fun w replica => (items.map (fun x => probability x w replica)).prod) := by
  induction heach with
  | nil => exact represents_nil c
  | cons hfirst _ ih =>
      simp only [List.map_cons, List.prod_cons]
      exact hfirst.append ih

/-- The factor that draws a variable from the distribution of a node stands for the chance of the
node. -/
theorem bernoulli_represents (hc : c.graph.Proper) {n dist : Nat} {d : Distribution ℚ}
    (hdist : c.graph.distOf? n = some dist) (hd : c.graph.dists[dist]? = some d) {place : Nat}
    {value : World → Nat → Bool}
    (hvalue : ∀ l : VariableLayout, l.Describes c.graph c.bayesian → ∀ a replica,
      value (l.world a) replica = decide (l.slots replica a (.own place) = 1)) :
    Represents c [] [.bernoulli (.own place) (.parameter dist) (c.chances d)]
      (fun w replica => Factor.chance (c.graph.chanceOf c.bayesian w n) (value w replica)) where
  sized := by
    rw [List.forall_mem_singleton]
    unfold Sized Factor.bernoulli
    rw [chances_length hd]
    rfl
  weight_eq := by
    intro l hl a ha replica _
    rw [product, List.map_singleton, List.prod_singleton, hvalue l hl]
    exact bernoulli_weight hc hl ha hdist hd replica place

/-! ## Latent variables -/

theorem distOf?_of_mem_gatedNodes {g : CausalGraph ℚ} {n : Nat} (hn : n ∈ g.gatedNodes) :
    ∃ dist, g.distOf? n = some dist := by
  have hstochastic := (List.mem_filter.mp hn).2
  rw [Bool.and_eq_true] at hstochastic
  exact Option.isSome_iff_exists.mp hstochastic.1

theorem distOf?_of_not_mem_gatedNodes {g : CausalGraph ℚ} {n : Nat} (hn : n < g.nodeCount)
    (hsingleton : n ∉ g.singletons) (hgated : n ∉ g.gatedNodes) : g.distOf? n = none := by
  by_contra hsome
  apply hgated
  refine List.mem_filter.mpr ⟨List.mem_range.mpr hn, ?_⟩
  rw [Bool.and_eq_true, Bool.not_eq_true', ← Bool.not_eq_true, CausalGraph.isSingleton_iff]
  exact ⟨Option.isSome_iff_ne_none.mpr hsome, hsingleton⟩

theorem world_latent (hbayesian : c.bayesian = true) {l : VariableLayout}
    (hl : l.Describes c.graph c.bayesian) {n : Nat} (hn : n ∈ c.graph.gatedNodes) (replica : Nat)
    (a : Assignment) :
    (l.world a).latent replica n =
      decide (l.slots replica a (c.latentSlot (c.graph.gatedNodes.idxOf n)) = 1) := by
  rw [hbayesian] at hl
  unfold VariableLayout.world
  dsimp only
  rw [CausalGraph.latentVar?_of_mem hl hn replica]
  dsimp only
  unfold VariableLayout.slots latentSlot
  rw [Function.comp_apply, Slot.resolve, ← hl.nodeCount_eq, Nat.add_assoc]

theorem latent_represents (hc : c.graph.Proper) (hbayesian : c.bayesian = true) {n : Nat}
    (hn : n ∈ c.graph.gatedNodes) :
    ∃ dist d, c.priorOf n = .ok (dist, d) ∧
      Represents c []
        [.bernoulli (c.latentSlot (c.graph.gatedNodes.idxOf n)) (.parameter dist) d.supports]
        (fun w replica => c.graph.latentProbability c.bayesian w replica n) := by
  obtain ⟨dist, hdist⟩ := distOf?_of_mem_gatedNodes hn
  obtain ⟨d, hd, hprior⟩ := priorOf_ok hc hdist
  refine ⟨dist, d, hprior, ?_⟩
  have hchances : c.chances d = d.supports := by
    unfold chances
    rw [hbayesian, if_pos rfl]
  rw [← hchances]
  exact bernoulli_represents hc hdist hd
    (fun l hl a replica => world_latent hbayesian hl hn replica a)

theorem latentFactors_ok (hc : c.graph.Proper) :
    ∃ factors, c.latentFactors = .ok factors ∧
      Represents c [] factors (c.graph.latentsProbability c.bayesian) := by
  unfold latentFactors CausalGraph.latentsProbability
  by_cases hbayesian : c.bayesian = true
  · simp only [if_pos hbayesian]
    have hstep : ∀ entry ∈ c.latents.zipIdx, ∃ f,
        (do
          let (dist, d) ← c.priorOf entry.1
          return Factor.bernoulli (c.latentSlot entry.2) (.parameter dist) d.supports) =
          Except.ok f ∧
        Represents c [] [f]
          (fun w replica => c.graph.latentProbability c.bayesian w replica entry.1) := by
      rintro ⟨n, index⟩ hentry
      have hget : c.graph.gatedNodes[index]? = some n := List.mem_zipIdx_iff_getElem?.mp hentry
      obtain ⟨hlt, hat⟩ := List.getElem?_eq_some_iff.mp hget
      have hindex : c.graph.gatedNodes.idxOf n = index := by
        rw [← hat]
        exact (CausalGraph.gatedNodes_nodup c.graph).idxOf_getElem index hlt
      obtain ⟨dist, d, hprior, hlatent⟩ :=
        latent_represents hc hbayesian (List.mem_of_getElem? hget)
      rw [hindex] at hlatent
      refine ⟨_, ?_, hlatent⟩
      dsimp only
      rw [hprior]
      rfl
    obtain ⟨factors, hfactors, heach⟩ := mapM_ok hstep
    refine ⟨factors, hfactors, ?_⟩
    have hnodes : c.latents.zipIdx.map Prod.fst = c.graph.gatedNodes := List.zipIdx_map_fst 0 _
    have hproduct := represents_each heach
    rw [← hnodes]
    simp only [List.map_map]
    exact hproduct
  · simp only [if_neg hbayesian]
    exact ⟨[], rfl, represents_nil c⟩

/-! ## Singletons -/

theorem derivation?_of_singleton (hc : c.graph.Proper) {n : Nat} (hn : n ∈ c.graph.singletons) :
    c.graph.derivation? n = none := by
  have hroles := CausalGraph.roles_of_validate hc.valid (hc.coherent.singletons_lt n hn)
  have hsum : c.graph.sum? n = none := Arrival.get?_eq_none_iff.mpr (by tauto)
  have hprod : c.graph.prod? n = none := Arrival.get?_eq_none_iff.mpr (by tauto)
  unfold CausalGraph.derivation?
  rw [hsum, hprod]

theorem singletonFactor_ok (hc : c.graph.Proper) {n : Nat} (hn : n ∈ c.graph.singletons) :
    ∃ f, c.singletonFactor n = .ok f ∧
      Represents c [] [f] (fun w replica => c.graph.nodeProbability c.bayesian w replica n) := by
  unfold singletonFactor CausalGraph.nodeProbability
  rw [derivation?_of_singleton hc hn]
  cases hdist : c.graph.distOf? n with
  | none =>
      refine ⟨.constantTrue (.own n), rfl, ?_, ?_⟩
      · rw [List.forall_mem_singleton]
        rfl
      · intro l hl a ha replica _
        have hchance : c.graph.chanceOf c.bayesian (l.world a) n = 1 := by
          unfold CausalGraph.chanceOf
          rw [hdist]
        dsimp only
        rw [product, List.map_singleton, List.prod_singleton, hchance]
        exact Factor.constantTrue_weightAt (own_slot_lt hl ha replica n)
  | some dist =>
      obtain ⟨d, hd, hprior⟩ := priorOf_ok hc hdist
      refine ⟨.bernoulli (.own n) (.parameter dist) (c.chances d), ?_, ?_⟩
      · dsimp only
        rw [hprior]
        rfl
      · exact bernoulli_represents hc hdist hd (fun _ _ _ _ => rfl)

/-! ## Derivations -/

/-- A binary control lets the derivation of a node through exactly when the model does. -/
structure Gates (c : Lowering ℚ) (control : Option Slot) (n : Nat) : Prop where
  binary : ∀ slot ∈ control, c.slotStates slot = 2
  all_eq_lets : ∀ l : VariableLayout, l.Describes c.graph c.bayesian → ∀ a replica,
    control.all (fun slot => l.slots replica a slot = 1) =
      c.graph.lets c.bayesian (l.world a) replica n

theorem controlOf_ok (hc : c.graph.Proper) {n : Nat} (hn : n < c.graph.nodeCount)
    (hsingleton : n ∉ c.graph.singletons) :
    ∃ control, c.controlOf n = .ok control ∧ Gates c control n := by
  unfold controlOf
  cases hposition : Arrival.position? c.latents n with
  | none =>
      have hgated : n ∉ c.graph.gatedNodes := Arrival.position?_eq_none_iff.mp hposition
      have hdist := distOf?_of_not_mem_gatedNodes hn hsingleton hgated
      refine ⟨none, rfl, by simp, ?_⟩
      intro l _ a replica
      unfold CausalGraph.lets
      rw [hdist]
      rfl
  | some index =>
      obtain ⟨hgated, rfl⟩ := Arrival.position?_eq_some_iff.mp hposition
      obtain ⟨dist, hdist⟩ := distOf?_of_mem_gatedNodes hgated
      dsimp only
      by_cases hbayesian : c.bayesian = true
      · rw [if_pos hbayesian]
        refine ⟨some (c.latentSlot (c.graph.gatedNodes.idxOf n)), rfl, ?_, ?_⟩
        · intro slot hslot
          cases hslot
          rfl
        · intro l hl a replica
          unfold CausalGraph.lets
          rw [hdist]
          dsimp only
          rw [if_pos hbayesian, world_latent hbayesian hl hgated]
          rfl
      · obtain ⟨d, hd, hprior⟩ := priorOf_ok hc hdist
        rw [if_neg hbayesian, hprior]
        refine ⟨some (.parameter dist), rfl, ?_, ?_⟩
        · intro slot hslot
          cases hslot
          unfold slotStates CausalGraph.stateCount
          exact if_neg hbayesian
        · intro l _ a replica
          unfold CausalGraph.lets
          rw [hdist]
          dsimp only
          rw [if_neg hbayesian]
          rfl

/-- Phony nodes and the factors of some heads that have been emitted. -/
structure Part (c : Lowering ℚ) (e : Emitted ℚ) (nodes : List PhonyNode)
    (kept : List (Factor Slot ℚ)) (heads : List Nat) : Prop where
  factors_perm : e.factors.Perm (nodes.map PhonyNode.factor ++ kept)
  places : nodes.map PhonyNode.place = List.range' c.phonyBase nodes.length
  next_eq : e.next = c.phonyBase + nodes.length
  node_body : ∀ p ∈ nodes, ∀ slot ∈ p.body, ∃ place, slot = .own place ∧ place < p.place
  represents : Represents c nodes kept (fun w replica =>
    (heads.map (c.graph.nodeProbability c.bayesian w replica)).prod *
      c.graph.latentsProbability c.bayesian w replica)

theorem Part.represents_more {e : Emitted ℚ} {nodes more : List PhonyNode}
    {kept factors : List (Factor Slot ℚ)} {heads others : List Nat}
    (hpart : Part c e nodes kept heads)
    (hfactors : Represents c more factors (fun w replica =>
      (others.map (c.graph.nodeProbability c.bayesian w replica)).prod)) :
    Represents c (nodes ++ more) (kept ++ factors) (fun w replica =>
      ((heads ++ others).map (c.graph.nodeProbability c.bayesian w replica)).prod *
        c.graph.latentsProbability c.bayesian w replica) := by
  have hboth := hpart.represents.append hfactors
  simp only [List.map_append, List.prod_append]
  simp only [mul_right_comm] at hboth ⊢
  exact hboth

structure Derived (c : Lowering ℚ) (connective : Connective) (d : Nat × List Nat) : Prop where
  lt : d.1 < c.graph.nodeCount
  not_singleton : d.1 ∉ c.graph.singletons
  derivation_eq : c.graph.derivation? d.1 = some (connective, d.2)
  body_lt : ∀ b ∈ d.2, b < c.graph.nodeCount

theorem clause_sized (connective : Connective) (place : Nat) {control : Option Slot}
    {body : List Slot} (hcontrol : ∀ slot ∈ control, c.slotStates slot = 2)
    (hbody : ∀ slot ∈ body, c.slotStates slot = 2) :
    Sized c (.clause connective (.own place) control body) := by
  apply List.map_congr_left
  intro slot hslot
  rcases List.mem_cons.mp hslot with rfl | hrest
  · rfl
  · rcases List.mem_append.mp hrest with hgate | hmem
    · exact (hcontrol slot (Option.mem_toList.mp hgate)).symm
    · exact (hbody slot hmem).symm

theorem head_represents {connective : Connective} {d : Nat × List Nat}
    (hd : Derived c connective d) {control : Option Slot} (hgates : Gates c control d.1)
    {next : Nat} {split : Splitting ℚ} {nodes : List PhonyNode}
    (hsplit : Splitting.Sound connective next (d.2.map Slot.own) split nodes) :
    Represents c nodes [.clause connective (.own d.1) control split.body]
      (fun w replica => c.graph.nodeProbability c.bayesian w replica d.1) := by
  have hbody : ∀ slot ∈ split.body, c.slotStates slot = 2 := by
    intro slot hslot
    rcases hsplit.body_usable slot hslot with hmem | ⟨place, rfl, _, _⟩
    · obtain ⟨b, _, rfl⟩ := List.mem_map.mp hmem
      rfl
    · rfl
  constructor
  case sized =>
    rw [List.forall_mem_singleton]
    exact clause_sized connective d.1 hgates.binary hbody
  case weight_eq =>
    intro l hl a ha replica hright
    have hbit : ∀ slot, c.slotStates slot = 2 → l.slots replica a slot < 2 := by
      intro slot hslot
      exact hslot ▸ slot_lt hl ha replica slot
    unfold CausalGraph.nodeProbability
    rw [product, List.map_singleton, List.prod_singleton, hd.derivation_eq,
      Factor.clause_weightAt connective (hbit _ rfl)
        (fun slot hslot => hbit slot (hgates.binary slot hslot))
        (fun slot hslot => hbit slot (hbody slot hslot)),
      hgates.all_eq_lets l hl, hsplit.value_eq _ hright, value_own_slots]
    rfl

/-- Emitting the clause of a derived node adds its phony nodes and its probability. -/
theorem Part.emitClause (hc : c.graph.Proper) {e : Emitted ℚ} {nodes : List PhonyNode}
    {kept : List (Factor Slot ℚ)} {heads : List Nat} (hpart : Part c e nodes kept heads)
    {connective : Connective} {d : Nat × List Nat} (hd : Derived c connective d) :
    ∃ next more head, c.emitClause connective e d = .ok next ∧
      Part c next (nodes ++ more) (kept ++ [head]) (heads ++ [d.1]) := by
  obtain ⟨control, hcontrol, hgates⟩ := controlOf_ok hc hd.lt hd.not_singleton
  set limit := if control.isSome then c.clauseLimit - 1 else c.clauseLimit
  set split : Splitting ℚ :=
    .ofBody connective c.clauseLimit limit e.next (d.2.map Slot.own) with hofBody
  obtain ⟨more, hsplit⟩ :=
    Splitting.ofBody_sound (α := ℚ) connective c.clauseLimit limit e.next (d.2.map Slot.own)
  rw [← hofBody] at hsplit
  set head : Factor Slot ℚ := .clause connective (.own d.1) control split.body
  have hemit : c.emitClause connective e d =
      .ok ⟨e.factors ++ split.factors ++ [head], split.next⟩ := by
    unfold Lowering.emitClause
    rw [hcontrol]
    rfl
  refine ⟨_, more, head, hemit, ?_⟩
  constructor
  case factors_perm =>
    dsimp only
    rw [hsplit.factors_eq, List.map_append, ← List.append_assoc _ kept]
    apply List.Perm.append_right
    calc
      List.Perm (e.factors ++ more.map PhonyNode.factor)
          (nodes.map PhonyNode.factor ++ kept ++ more.map PhonyNode.factor) :=
            hpart.factors_perm.append_right _
      _ = nodes.map PhonyNode.factor ++ (kept ++ more.map PhonyNode.factor) :=
            List.append_assoc _ _ _
      List.Perm _ (nodes.map PhonyNode.factor ++ (more.map PhonyNode.factor ++ kept)) :=
            List.perm_append_comm.append_left _
      _ = nodes.map PhonyNode.factor ++ more.map PhonyNode.factor ++ kept :=
            (List.append_assoc _ _ _).symm
  case places =>
    rw [List.map_append, hpart.places, hsplit.places, hpart.next_eq, List.length_append,
      List.range'_append_1]
  case next_eq =>
    rw [hsplit.next_eq, hpart.next_eq, List.length_append, Nat.add_assoc]
  case node_body =>
    rw [List.forall_mem_append]
    refine ⟨hpart.node_body, ?_⟩
    intro p hp slot hslot
    rcases hsplit.node_body p hp slot hslot with hmem | ⟨place, rfl, _, hlt⟩
    · obtain ⟨b, hb, rfl⟩ := List.mem_map.mp hmem
      have hcount := hd.body_lt b hb
      have hbase : c.graph.nodeCount ≤ c.phonyBase := Nat.le_add_right _ _
      have hnext := hpart.next_eq
      have hplace := hsplit.le_place hp
      exact ⟨b, rfl, by omega⟩
    · exact ⟨place, rfl, hlt⟩
  case represents =>
    have hhead := head_represents hd hgates hsplit
    apply hpart.represents_more
    simp only [List.map_singleton, List.prod_singleton]
    exact hhead

theorem Part.emitClauses (hc : c.graph.Proper) {connective : Connective}
    {derivations : List (Nat × List Nat)} (hderived : ∀ d ∈ derivations, Derived c connective d)
    {e : Emitted ℚ} {nodes : List PhonyNode} {kept : List (Factor Slot ℚ)} {heads : List Nat}
    (hpart : Part c e nodes kept heads) :
    ∃ last more factors, derivations.foldlM (c.emitClause connective) e = .ok last ∧
      Part c last more factors (heads ++ derivations.map Prod.fst) := by
  induction derivations generalizing e nodes kept heads with
  | nil =>
      refine ⟨e, nodes, kept, rfl, ?_⟩
      rwa [List.map_nil, List.append_nil]
  | cons d derivations ih =>
      rw [List.forall_mem_cons] at hderived
      obtain ⟨next, _, _, hnext, hstep⟩ := hpart.emitClause hc hderived.1
      obtain ⟨last, more, factors, hlast, hrest⟩ := ih hderived.2 hstep
      refine ⟨last, more, factors, foldlM_cons_eq_ok_iff.mpr ⟨next, hnext, hlast⟩, ?_⟩
      rwa [List.append_assoc] at hrest

theorem Part.append {e : Emitted ℚ} {nodes : List PhonyNode} {kept factors : List (Factor Slot ℚ)}
    {heads others : List Nat} (hpart : Part c e nodes kept heads)
    (hfactors : Represents c [] factors (fun w replica =>
      (others.map (c.graph.nodeProbability c.bayesian w replica)).prod)) :
    Part c { e with factors := e.factors ++ factors } nodes (kept ++ factors)
      (heads ++ others) where
  factors_perm := by
    rw [← List.append_assoc]
    exact hpart.factors_perm.append_right factors
  places := hpart.places
  next_eq := hpart.next_eq
  node_body := hpart.node_body
  represents := by
    have hmore := hpart.represents_more hfactors
    rwa [List.append_nil] at hmore

theorem derived_of_sum (hc : c.graph.Proper) {d : Nat × List Nat} (hd : d ∈ c.graph.sums) :
    Derived c .any d := by
  have hmem : d.1 ∈ c.graph.sums.map Prod.fst := List.mem_map_of_mem hd
  have hroles := CausalGraph.roles_of_validate hc.valid (hc.coherent.sums.head_lt d hd)
  have hsum : c.graph.sum? d.1 = some d.2 :=
    (Arrival.get?_eq_some_iff hc.coherent.sums.heads_nodup).mpr hd
  constructor
  · exact hc.coherent.sums.head_lt d hd
  · tauto
  · unfold CausalGraph.derivation?
    rw [hsum]
  · exact (hc.coherent.sums.body d hd).lt

theorem derived_of_prod (hc : c.graph.Proper) {d : Nat × List Nat} (hd : d ∈ c.graph.prods) :
    Derived c .all d := by
  have hmem : d.1 ∈ c.graph.prods.map Prod.fst := List.mem_map_of_mem hd
  have hroles := CausalGraph.roles_of_validate hc.valid (hc.coherent.prods.head_lt d hd)
  have hsum : c.graph.sum? d.1 = none := Arrival.get?_eq_none_iff.mpr (by tauto)
  have hprod : c.graph.prod? d.1 = some d.2 :=
    (Arrival.get?_eq_some_iff hc.coherent.prods.heads_nodup).mpr hd
  constructor
  · exact hc.coherent.prods.head_lt d hd
  · tauto
  · unfold CausalGraph.derivation?
    rw [hsum, hprod]
  · exact (hc.coherent.prods.body d hd).lt

/-! ## The whole template -/

/-- The template of a graph that validates, with all of its nodes. -/
theorem template_ok (hc : c.graph.Proper) :
    ∃ e nodes kept, c.template = .ok e ∧
      Part c e nodes kept (List.range c.graph.nodeCount) := by
  obtain ⟨latents, hlatents, hlatentPart⟩ := latentFactors_ok hc
  have hstart : Part c ⟨latents, c.phonyBase⟩ [] latents [] := {
    factors_perm := List.Perm.refl _
    places := rfl
    next_eq := rfl
    node_body := by simp
    represents := by
      simp only [List.map_nil, List.prod_nil, one_mul]
      exact hlatentPart }
  obtain ⟨sums, _, _, hsums, hsumPart⟩ := hstart.emitClauses hc (fun _ => derived_of_sum hc)
  obtain ⟨clauses, nodes, kept, hclauses, hclausePart⟩ :=
    hsumPart.emitClauses hc (fun _ => derived_of_prod hc)
  obtain ⟨singletons, hsingletons, heach⟩ := mapM_ok (fun _ => singletonFactor_ok (c := c) hc)
  have hpart := hclausePart.append (represents_each heach)
  refine ⟨_, nodes, kept ++ singletons, ?_, { hpart with represents := ?_ }⟩
  · exact bind_eq_ok_iff.mpr ⟨latents, hlatents, bind_eq_ok_iff.mpr ⟨sums, hsums,
      bind_eq_ok_iff.mpr ⟨clauses, hclauses, bind_eq_ok_iff.mpr ⟨singletons, hsingletons, rfl⟩⟩⟩⟩
  · have hperm : ∀ w replica,
        (([] ++ c.graph.sums.map Prod.fst ++ c.graph.prods.map Prod.fst ++
          c.graph.singletons).map (c.graph.nodeProbability c.bayesian w replica)).prod =
        ((List.range c.graph.nodeCount).map
          (c.graph.nodeProbability c.bayesian w replica)).prod := by
      intro w replica
      rw [List.nil_append, List.append_assoc]
      exact ((hc.coherent.roles_perm hc.valid).map _).prod_eq
    have hrepresents := hpart.represents
    simp only [hperm] at hrepresents
    exact hrepresents

end Lowering

end FactorGraph

end DerivationBelief

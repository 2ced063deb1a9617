import DerivationBelief.Proofs.DefinedVariables
import DerivationBelief.Proofs.EvidenceWeight
import DerivationBelief.Proofs.Template
import Mathlib.Tactic

/-!
# Compilation preserves meaning

The factors of a compiled graph weigh a world, with its phony variables summed out, exactly as
probable as the generative model says.  Phony nodes are defined variables, so the sum gives them the
values of their bodies, and then every other factor weighs as one probability of the model.
-/

namespace DerivationBelief

namespace FactorGraph

open Lowering

/-! ## Phony nodes as defined variables -/

def phonyDefinition (l : VariableLayout) (replica : Nat) (p : PhonyNode) : DefinedVariable where
  var := l.offset replica + p.place
  value a := (p.value (l.slots replica a)).toNat

def phonyDefinitions (l : VariableLayout) (nodes : List PhonyNode) : List DefinedVariable :=
  (List.range (l.repetitions + 1)).flatMap (fun r => nodes.map (phonyDefinition l r))

/-- A factor graph of a lowered graph, with its template taken apart. -/
structure Lowered (c : Lowering ℚ) (f : FactorGraph ℚ) (nodes : List PhonyNode)
    (kept : List (Factor Slot ℚ)) : Prop where
  describes : f.layout.Describes c.graph c.bayesian
  parameters_eq : f.parameters = c.parameterFactors
  phonyCount_eq : f.layout.phonyCount = nodes.length
  part : Part c ⟨f.template, c.phonyBase + nodes.length⟩ nodes kept
    (List.range c.graph.nodeCount)

variable {c : Lowering ℚ} {f : FactorGraph ℚ} {nodes : List PhonyNode}
  {kept : List (Factor Slot ℚ)}

theorem Lowered.phonyBase_eq (hf : Lowered c f nodes kept) :
    c.phonyBase = f.layout.nodeCount + f.layout.latentCount := by
  unfold phonyBase VariableLayout.latentCount
  rw [hf.describes.nodeCount_eq, hf.describes.bayesian_eq, hf.describes.latents_eq]
  rfl

theorem Lowered.place_lt (hf : Lowered c f nodes kept) {p : PhonyNode} (hp : p ∈ nodes)
    (replica : Nat) :
    f.layout.offset replica + p.place < f.layout.offset (replica + 1) := by
  have hmem := List.mem_map_of_mem hp (f := PhonyNode.place)
  rw [hf.part.places] at hmem
  have hlt := (List.mem_range'_1.mp hmem).2
  have hbase := hf.phonyBase_eq
  have hcount := hf.phonyCount_eq
  rw [VariableLayout.offset_succ]
  unfold VariableLayout.shift
  omega

theorem Lowered.phonyVars_eq (hf : Lowered c f nodes kept) :
    (phonyDefinitions f.layout nodes).map DefinedVariable.var = f.layout.phonyVars := by
  unfold phonyDefinitions VariableLayout.phonyVars
  rw [List.map_flatMap]
  congr 1
  funext r
  have hplaces : nodes.map PhonyNode.place =
      (List.range f.layout.phonyCount).map (fun i => c.phonyBase + i) := by
    rw [hf.part.places, hf.phonyCount_eq, List.range'_eq_map_range]
  calc
    (nodes.map (phonyDefinition f.layout r)).map DefinedVariable.var
        = (nodes.map PhonyNode.place).map (fun place => f.layout.offset r + place) := by
          rw [List.map_map, List.map_map]
          rfl
    _ = (List.range f.layout.phonyCount).map (f.layout.phonyVar r) := by
          rw [hplaces, List.map_map]
          apply List.map_congr_left
          intro i _
          rw [Function.comp_apply, hf.phonyBase_eq]
          unfold VariableLayout.phonyVar
          omega

theorem phonyDefinition_below {p : PhonyNode}
    (hbody : ∀ slot ∈ p.body, ∃ place, slot = .own place ∧ place < p.place) (l : VariableLayout)
    (replica : Nat) :
    DependsOn (phonyDefinition l replica p).value {v | v < (phonyDefinition l replica p).var} := by
  intro a b hab
  have hsame : p.body.map (l.slots replica a) = p.body.map (l.slots replica b) := by
    apply List.map_congr_left
    intro slot hslot
    obtain ⟨place, rfl, hlt⟩ := hbody slot hslot
    exact hab _ (Nat.add_lt_add_left hlt _)
  unfold phonyDefinition PhonyNode.value
  dsimp only
  rw [hsame]

theorem Lowered.ordered (hf : Lowered c f nodes kept) :
    DefinedVariable.Ordered (c.graph.stateCount c.bayesian) (phonyDefinitions f.layout nodes) := by
  have hascending : nodes.Pairwise (fun p q => p.place < q.place) := by
    rw [← List.pairwise_map (f := PhonyNode.place) (R := (· < ·)), hf.part.places]
    exact List.pairwise_lt_range'
  have hmem : ∀ d ∈ phonyDefinitions f.layout nodes,
      ∃ r, ∃ p ∈ nodes, phonyDefinition f.layout r p = d := by
    intro d hd
    obtain ⟨r, _, hr⟩ := List.mem_flatMap.mp hd
    obtain ⟨p, hp, heq⟩ := List.mem_map.mp hr
    exact ⟨r, p, hp, heq⟩
  constructor
  case ascending =>
    unfold phonyDefinitions
    rw [List.pairwise_flatMap]
    constructor
    · intro r _
      rw [List.pairwise_map]
      exact hascending.imp (fun hlt => Nat.add_lt_add_left hlt _)
    · apply List.pairwise_lt_range.imp
      intro r s hlt d hd e he
      obtain ⟨p, hp, rfl⟩ := List.mem_map.mp hd
      obtain ⟨q, _, rfl⟩ := List.mem_map.mp he
      calc
        f.layout.offset r + p.place < f.layout.offset (r + 1) := hf.place_lt hp r
        _ ≤ f.layout.offset s := VariableLayout.offset_mono hlt
        _ ≤ f.layout.offset s + q.place := Nat.le_add_right _ _
  case below =>
    intro d hd
    obtain ⟨r, p, hp, rfl⟩ := hmem d hd
    exact phonyDefinition_below (hf.part.node_body p hp) f.layout r
  case inRange =>
    intro d hd a
    obtain ⟨r, p, hp, rfl⟩ := hmem d hd
    have hge : c.graph.distCount ≤ (phonyDefinition f.layout r p).var := by
      rw [← hf.describes.distCount_eq]
      exact (f.layout.distCount_le_offset r).trans (Nat.le_add_right _ _)
    rw [CausalGraph.stateCount_of_ge hge]
    exact Bool.toNat_lt _

/-! ## The cardinalities of all factors -/

theorem slotStates_eq {l : VariableLayout} (hl : l.Describes c.graph c.bayesian) (replica : Nat)
    (slot : Slot) :
    c.slotStates slot = c.graph.stateCount c.bayesian (slot.resolve (l.offset replica)) := by
  cases slot with
  | parameter dist => rfl
  | own place =>
      have hge : c.graph.distCount ≤ l.offset replica + place := by
        rw [← hl.distCount_eq]
        exact (l.distCount_le_offset replica).trans (Nat.le_add_right _ _)
      exact (CausalGraph.stateCount_of_ge hge).symm

theorem parameterFactor_cards {d : Distribution ℚ} (hd : d.WellFormed) {dist : Nat}
    (hdist : c.graph.dists[dist]? = some d) :
    (c.parameterFactor dist d).cards =
      (c.parameterFactor dist d).vars.map (c.graph.stateCount c.bayesian) := by
  unfold parameterFactor CausalGraph.stateCount
  cases c.bayesian with
  | true => simp [Factor.categorical, hdist, hd.length_eq]
  | false => simp [Factor.categorical]

/-- Every factor lists the numbers of states of its variables. -/
theorem Lowered.cards_eq (hf : Lowered c f nodes kept) (hc : c.graph.Proper) :
    ∀ t ∈ f.factors, t.cards = t.vars.map (c.graph.stateCount c.bayesian) := by
  have htemplate : ∀ t ∈ f.template, Sized c t := by
    intro t ht
    rcases List.mem_append.mp (hf.part.factors_perm.mem_iff.mp ht) with hphony | hkept
    · obtain ⟨p, hp, rfl⟩ := List.mem_map.mp hphony
      apply clause_sized p.connective p.place (by simp)
      intro slot hslot
      obtain ⟨place, rfl, _⟩ := hf.part.node_body p hp slot hslot
      rfl
    · exact hf.part.represents.sized t hkept
  intro t ht
  rcases List.mem_append.mp ht with hparameter | hreplica
  · rw [hf.parameters_eq] at hparameter
    obtain ⟨⟨d, dist⟩, hentry, rfl⟩ := List.mem_map.mp hparameter
    have hdist : c.graph.dists[dist]? = some d := List.mem_zipIdx_iff_getElem?.mp hentry
    exact parameterFactor_cards (hc.dists d (List.mem_of_getElem? hdist)) hdist
  · obtain ⟨r, _, hr⟩ := List.mem_flatMap.mp hreplica
    obtain ⟨u, hu, rfl⟩ := List.mem_map.mp hr
    refine (htemplate u hu).trans ?_
    unfold Factor.mapVars
    dsimp only
    rw [List.map_map]
    apply List.map_congr_left
    intro slot _
    exact slotStates_eq hf.describes r slot

/-! ## The weight of all factors -/

theorem phony_weightAt {l : VariableLayout} (hl : l.Describes c.graph c.bayesian) {p : PhonyNode}
    (hbody : ∀ slot ∈ p.body, ∃ place, slot = .own place ∧ place < p.place) {a : Assignment}
    (ha : InRange (c.graph.stateCount c.bayesian) a) (replica : Nat) :
    p.factor.weightAt (l.slots replica a) = (phonyDefinition l replica p).weight a := by
  have hbits : ∀ slot ∈ p.body, l.slots replica a slot < 2 := by
    intro slot hslot
    obtain ⟨place, rfl, _⟩ := hbody slot hslot
    exact own_slot_lt hl ha replica place
  have hplace := own_slot_lt hl ha replica p.place
  have hiff : decide (l.slots replica a (.own p.place) = 1) = p.value (l.slots replica a) ↔
      a (phonyDefinition l replica p).var = (phonyDefinition l replica p).value a := by
    change _ ↔ l.slots replica a (.own p.place) = (p.value (l.slots replica a)).toNat
    generalize l.slots replica a (.own p.place) = bit at hplace ⊢
    rcases (by omega : bit = 0 ∨ bit = 1) with rfl | rfl <;>
      cases p.value (l.slots replica a) <;> simp
  unfold PhonyNode.factor DefinedVariable.weight
  rw [Factor.clause_weightAt p.connective hplace (by simp) hbits]
  exact if_congr hiff rfl rfl

theorem parameterFactor_weightAt {d : Distribution ℚ} (hd : d.WellFormed) {dist : Nat}
    (hdist : c.graph.dists[dist]? = some d) {a : Assignment}
    (ha : InRange (c.graph.stateCount c.bayesian) a) :
    (c.parameterFactor dist d).weightAt a = d.drawProbability c.bayesian (a dist) := by
  have hstate := ha dist
  unfold CausalGraph.stateCount at hstate
  unfold parameterFactor Distribution.drawProbability
  by_cases hbayesian : c.bayesian = true
  · rw [if_pos hbayesian, hdist] at hstate
    dsimp only at hstate
    rw [if_pos hbayesian, if_pos hbayesian]
    exact Factor.categorical_weightAt (hd.length_eq ▸ hstate)
  · rw [if_neg hbayesian] at hstate
    rw [if_neg hbayesian, if_neg hbayesian, Factor.categorical_weightAt hstate]
    generalize a dist = state at hstate ⊢
    rcases (by omega : state = 0 ∨ state = 1) with rfl | rfl <;> simp [Factor.chance]

theorem jointWeight_parameterFactors (hc : c.graph.Proper) (l : VariableLayout) {a : Assignment}
    (ha : InRange (c.graph.stateCount c.bayesian) a) :
    jointWeight c.parameterFactors a = c.graph.drawsProbability c.bayesian (l.world a) := by
  unfold jointWeight parameterFactors CausalGraph.drawsProbability
  rw [List.map_map]
  congr 1
  apply List.map_congr_left
  rintro ⟨d, dist⟩ hentry
  have hdist : c.graph.dists[dist]? = some d := List.mem_zipIdx_iff_getElem?.mp hentry
  exact parameterFactor_weightAt (hc.dists d (List.mem_of_getElem? hdist)) hdist ha

theorem Lowered.jointWeight_replica (hf : Lowered c f nodes kept) {a : Assignment}
    (ha : InRange (c.graph.stateCount c.bayesian) a) (replica : Nat) :
    jointWeight (f.replicaFactors replica) a =
      (nodes.map (fun p => (phonyDefinition f.layout replica p).weight a)).prod *
        product kept (f.layout.slots replica a) := by
  have hslots : jointWeight (f.replicaFactors replica) a =
      product f.template (f.layout.slots replica a) := by
    unfold jointWeight replicaFactors product
    rw [List.map_map]
    congr 1
    apply List.map_congr_left
    intro t _
    exact Factor.weightAt_mapVars _ t a
  have hphony : nodes.map (fun p => p.factor.weightAt (f.layout.slots replica a)) =
      nodes.map (fun p => (phonyDefinition f.layout replica p).weight a) := by
    apply List.map_congr_left
    intro p hp
    exact phony_weightAt hf.describes (hf.part.node_body p hp) ha replica
  rw [hslots, ← hphony]
  unfold product
  rw [(hf.part.factors_perm.map _).prod_eq, List.map_append, List.prod_append, List.map_map]
  rfl

/-- What is left of the weight of all factors without the phony nodes. -/
def openWeight (f : FactorGraph ℚ) (kept : List (Factor Slot ℚ)) (a : Assignment) : ℚ :=
  ((List.range (f.layout.repetitions + 1)).map (fun r =>
    product kept (f.layout.slots r a))).prod * jointWeight f.parameters a

theorem Lowered.jointWeight_factors (hf : Lowered c f nodes kept) {a : Assignment}
    (ha : InRange (c.graph.stateCount c.bayesian) a) :
    jointWeight f.factors a =
      ((phonyDefinitions f.layout nodes).map (fun d => d.weight a)).prod *
        openWeight f kept a := by
  have hreplicas : ∀ replicas : List Nat, jointWeight (replicas.flatMap f.replicaFactors) a =
      ((replicas.flatMap (fun r => nodes.map (phonyDefinition f.layout r))).map
          (fun d => d.weight a)).prod *
        (replicas.map (fun r => product kept (f.layout.slots r a))).prod := by
    intro replicas
    induction replicas with
    | nil => simp [jointWeight]
    | cons r replicas ih =>
        have hfirst : (nodes.map (phonyDefinition f.layout r)).map (fun d => d.weight a) =
            nodes.map (fun p => (phonyDefinition f.layout r p).weight a) := List.map_map
        rw [List.flatMap_cons, List.flatMap_cons, jointWeight_append, ih,
          hf.jointWeight_replica ha, List.map_append, List.prod_append, hfirst, List.map_cons,
          List.prod_cons]
        ring
  unfold factors openWeight phonyDefinitions
  rw [jointWeight_append, hreplicas]
  ring

/-- With right phony nodes, the rest of the weight is the probability of the world. -/
theorem Lowered.openWeight_eq (hf : Lowered c f nodes kept) (hc : c.graph.Proper)
    {a : Assignment} (ha : InRange (c.graph.stateCount c.bayesian) a)
    (hright : ∀ d ∈ phonyDefinitions f.layout nodes, a d.var = d.value a) :
    openWeight f kept a =
      c.graph.worldProbability c.bayesian (f.layout.world a) f.layout.repetitions := by
  unfold openWeight CausalGraph.worldProbability
  rw [hf.parameters_eq, jointWeight_parameterFactors hc f.layout ha]
  congr 2
  apply List.map_congr_left
  intro r hr
  apply hf.part.represents.weight_eq f.layout hf.describes a ha r
  intro p hp
  have hvalue : f.layout.slots r a (.own p.place) = (p.value (f.layout.slots r a)).toNat :=
    hright (phonyDefinition f.layout r p)
      (List.mem_flatMap.mpr ⟨r, hr, List.mem_map_of_mem hp⟩)
  unfold PhonyNode.Right
  rw [hvalue]
  cases p.value (f.layout.slots r a) <;> rfl

/-! ## Summing the phony variables out -/

theorem phonyVars_not_worldVars {l : VariableLayout} {v : Nat} (hv : v ∈ l.phonyVars) :
    v ∉ l.worldVars := by
  obtain ⟨r, _, hr⟩ := List.mem_flatMap.mp hv
  obtain ⟨i, hi, rfl⟩ := List.mem_map.mp hr
  have hi := List.mem_range.mp hi
  have hblock : l.phonyVar r i ∈ l.Block r := by
    have hnext := l.offset_succ r
    unfold VariableLayout.shift at hnext
    constructor <;> unfold VariableLayout.phonyVar <;> omega
  intro hworld
  rcases List.mem_append.mp hworld with hreplica | hparameter
  · obtain ⟨s, _, hs⟩ := List.mem_flatMap.mp hreplica
    by_cases hrs : r = s
    · subst s
      rcases List.mem_append.mp hs with hnode | hlatent
      · obtain ⟨n, hn, heq⟩ := List.mem_map.mp hnode
        have hn := List.mem_range.mp hn
        unfold VariableLayout.nodeVar VariableLayout.phonyVar at heq
        omega
      · obtain ⟨place, hplace, heq⟩ := List.mem_map.mp hlatent
        have hplace := List.mem_range.mp hplace
        unfold VariableLayout.phonyVar at heq
        omega
    · exact VariableLayout.not_mem_block_of_ne hrs hblock
        (CausalGraph.replicaVars_subset_block hs)
  · exact VariableLayout.block_not_parameter hblock (List.mem_range.mp hparameter)

theorem Lowered.sumStates_phony (hf : Lowered c f nodes kept) (hc : c.graph.Proper)
    {a : Assignment} (ha : InRange (c.graph.stateCount c.bayesian) a) :
    sumStates (c.graph.stateCount c.bayesian) f.layout.phonyVars (jointWeight f.factors) a =
      c.graph.worldProbability c.bayesian (f.layout.world a) f.layout.repetitions := by
  have hordered := hf.ordered
  set definitions := phonyDefinitions f.layout nodes with hdefinitions
  set completed := DefinedVariable.complete definitions a with hcompleted
  calc
    sumStates (c.graph.stateCount c.bayesian) f.layout.phonyVars (jointWeight f.factors) a
        = sumStates (c.graph.stateCount c.bayesian) (definitions.map DefinedVariable.var)
            (fun b => (definitions.map (fun d => d.weight b)).prod * openWeight f kept b) a := by
          rw [hdefinitions, hf.phonyVars_eq]
          exact sumStates_congr (fun b hb => hf.jointWeight_factors hb) ha
    _ = openWeight f kept completed := DefinedVariable.sumStates_defined hordered _ a
    _ = c.graph.worldProbability c.bayesian (f.layout.world completed) f.layout.repetitions :=
          hf.openWeight_eq hc (hordered.complete_inRange ha) (hordered.complete_right a)
    _ = c.graph.worldProbability c.bayesian (f.layout.world a) f.layout.repetitions := by
          apply CausalGraph.worldProbability_dependsOn hf.describes hc.coherent
          intro v hv
          apply DefinedVariable.complete_of_not_mem
          rw [hdefinitions, hf.phonyVars_eq]
          exact fun hphony => phonyVars_not_worldVars hphony hv

/-! ## Compilation -/

theorem compile_ok (hc : c.graph.Proper) (hlow : 2 ≤ c.clauseLimit)
    (hhigh : c.clauseLimit ≤ maxClauseLimit) (repetitions : Nat) :
    ∃ f nodes kept, compile c.graph repetitions c.bayesian c.clauseLimit = .ok f ∧
      f.layout.repetitions = repetitions ∧ Lowered c f nodes kept := by
  obtain ⟨e, nodes, kept, htemplate, hpart⟩ := template_ok hc
  have hlimit : ¬ (c.clauseLimit < 2 ∨ maxClauseLimit < c.clauseLimit) := by omega
  have hcompile : compile c.graph repetitions c.bayesian c.clauseLimit = .ok {
      layout := {
        distCount := c.graph.distCount
        nodeCount := c.graph.nodeCount
        latents := c.latents
        phonyCount := e.next - c.phonyBase
        bayesian := c.bayesian
        repetitions }
      parameters := c.parameterFactors
      template := e.factors } := by
    unfold compile
    rw [if_neg hlimit]
    exact bind_eq_ok_iff.mpr ⟨e, htemplate, rfl⟩
  refine ⟨_, nodes, kept, hcompile, rfl, ?_⟩
  constructor
  case describes => exact ⟨rfl, rfl, rfl, rfl⟩
  case parameters_eq => rfl
  case phonyCount_eq =>
    dsimp only
    rw [hpart.next_eq, Nat.add_sub_cancel_left]
  case part => exact { hpart with next_eq := rfl }

/-- Compiling a graph preserves its meaning.  The factors agree on the numbers of states of their
variables.  With the phony variables summed out they weigh every world as the generative model does,
and over all variables they add up to one. -/
theorem compile_preserves_meaning {g : CausalGraph ℚ} (hg : g.Constructed)
    (hvalid : g.validate = .ok ()) (hacyclic : Acyclic g.Derives)
    (hdists : ∀ d ∈ g.dists, d.WellFormed) (repetitions : Nat) (bayesian : Bool) {limit : Nat}
    (hlow : 2 ≤ limit) (hhigh : limit ≤ 62) :
    ∃ f, compile g repetitions bayesian limit = .ok f ∧
      f.layout.Describes g bayesian ∧ f.layout.repetitions = repetitions ∧
      (∀ t ∈ f.factors, t.cards = t.vars.map (g.stateCount bayesian)) ∧
      (∀ a, InRange (g.stateCount bayesian) a →
        sumStates (g.stateCount bayesian) f.layout.phonyVars (jointWeight f.factors) a =
          g.worldProbability bayesian (f.layout.world a) repetitions) ∧
      (∀ a, InRange (g.stateCount bayesian) a →
        sumStates (g.stateCount bayesian) (f.layout.phonyVars ++ f.layout.worldVars)
          (jointWeight f.factors) a = 1) := by
  set c : Lowering ℚ := ⟨g, bayesian, limit⟩
  have hc : c.graph.Proper := ⟨hg.coherent, hvalid, hdists⟩
  obtain ⟨f, nodes, kept, hcompile, hrepetitions, hf⟩ := compile_ok hc hlow hhigh repetitions
  subst repetitions
  refine ⟨f, hcompile, hf.describes, rfl, hf.cards_eq hc, ?_, ?_⟩
  · intro a ha
    exact hf.sumStates_phony hc ha
  · intro a ha
    rw [sumStates_append, ← CausalGraph.worldProbability_sum hf.describes hg.coherent hacyclic
      hdists ha]
    exact sumStates_congr (fun b hb => hf.sumStates_phony hc hb) ha

/-! ## A street that is wet after rain -/

open CausalGraph

def evenOdds : Distribution ℚ :=
  ⟨[1 / 4, 3 / 4], [1 / 2, 1 / 2]⟩

def plainStreet : CausalGraph ℚ :=
  ⟨"street", ["rain", "wet"], [0], [(1, [0])], [], [], []⟩

/-- Rain and the rule that makes the street wet share one distribution. -/
def wetStreet : CausalGraph ℚ :=
  { plainStreet with
    dists := [evenOdds]
    stochastic := [(0, 0), (1, 0)] }

theorem wetStreet_constructed : wetStreet.Constructed := by
  have hbuild : CausalGraph.build "street" ["rain", "wet"] ["rain"] [("wet", ["rain"])] [] =
      .ok plainStreet := rfl
  have htie : (plainStreet.setPrior "rain" evenOdds).1.tie 1 0 = .ok wetStreet := rfl
  exact ((Constructed.build hbuild).setPrior "rain" evenOdds).tie htie

theorem wetStreet_acyclic : Acyclic wetStreet.Derives := by
  apply Acyclic.of_rank id
  intro b h hstep
  have hedge : (b, h) = (0, 1) := by
    simpa [Derives, edges, wetStreet, plainStreet] using hstep
  cases hedge
  exact Nat.zero_lt_one

theorem wetStreet_compile_preserves_meaning :
    ∃ f, compile wetStreet 1 true 2 = .ok f ∧
      f.layout.Describes wetStreet true ∧ f.layout.repetitions = 1 ∧
      (∀ t ∈ f.factors, t.cards = t.vars.map (wetStreet.stateCount true)) ∧
      (∀ a, InRange (wetStreet.stateCount true) a →
        sumStates (wetStreet.stateCount true) f.layout.phonyVars (jointWeight f.factors) a =
          wetStreet.worldProbability true (f.layout.world a) 1) ∧
      (∀ a, InRange (wetStreet.stateCount true) a →
        sumStates (wetStreet.stateCount true) (f.layout.phonyVars ++ f.layout.worldVars)
          (jointWeight f.factors) a = 1) := by
  have hvalid : wetStreet.validate = .ok () := rfl
  have hdists : ∀ d ∈ wetStreet.dists, d.WellFormed := by
    intro d hd
    rw [List.mem_singleton.mp hd]
    constructor <;> norm_num [evenOdds]
  exact compile_preserves_meaning wetStreet_constructed hvalid wetStreet_acyclic hdists 1 true
    (by decide) (by decide)

end FactorGraph

end DerivationBelief

import DerivationBelief.LearnerContext
import DerivationBelief.Proofs.CompilationMeaning
import DerivationBelief.Proofs.CompiledLoading
import DerivationBelief.Proofs.ExactInference
import DerivationBelief.Proofs.WorldProbability
import Mathlib.Data.List.Sigma
import Mathlib.Tactic

/-!
# The answers of compiled graphs are probabilities

The factors of a compiled graph give an event the weight that is its probability.  When each batch
of a history is bound in its own replica, the evidence therefore weighs as much as it is probable
that the history holds, and the belief in a node is its probability given the history.
-/

namespace DerivationBelief

open CausalGraph

/-! ## What is known of the factors of a graph -/

namespace FactorGraph

open Lowering

/-- The factors of a graph with some replicas: their variables are those of the layout, and without
the phony ones they weigh worlds. -/
structure Means (f : FactorGraph ℚ) (g : CausalGraph ℚ) (bayesian : Bool)
    (repetitions : Nat) : Prop where
  describes : f.layout.Describes g bayesian
  repetitions_eq : f.layout.repetitions = repetitions
  consistent : Consistent (g.stateCount bayesian) f.factors
  vars_perm : (variablesOf f.factors).Perm (f.layout.phonyVars ++ f.layout.worldVars)
  weight : ∀ a, InRange (g.stateCount bayesian) a →
    sumStates (g.stateCount bayesian) f.layout.phonyVars (jointWeight f.factors) a =
      g.worldProbability bayesian (f.layout.world a) repetitions
  loads : ∀ label options,
    Loads options.maxTableEntries (fun _ => True) (ExactNetwork.ofFactors label options f.factors)

theorem Lowering.Compiled.variables_perm {c : Lowering ℚ} {phonyCount repetitions : Nat}
    {f : FactorGraph ℚ} {owners : List ReplicaPart}
    (hf : Compiled c phonyCount repetitions f owners) (hg : c.graph.Coherent)
    (hvalid : c.graph.validate = .ok ()) :
    (variablesOf f.factors).Perm (List.range f.layout.factorCount) := by
  have hheads := hf.heads_perm hg hvalid
  rw [List.perm_ext_iff_of_nodup (variablesOf_nodup _) List.nodup_range]
  intro v
  rw [mem_variablesOf, List.mem_range]
  constructor
  · rintro ⟨t, ht, hv⟩
    exact hf.var_lt hg hvalid ht hv
  · intro hv
    have hmem : some v ∈ f.factors.map (fun t => t.vars.head?) :=
      hheads.mem_iff.mpr (List.mem_map_of_mem (List.mem_range.mpr hv))
    obtain ⟨t, ht, hhead⟩ := List.mem_map.mp hmem
    exact ⟨t, ht, List.mem_of_head? hhead⟩

theorem compile_means {g : CausalGraph ℚ} (hg : g.Proper) (repetitions : Nat) (bayesian : Bool)
    {limit : Nat} (hlow : 2 ≤ limit) (hhigh : limit ≤ maxClauseLimit) :
    ∃ f, compile g repetitions bayesian limit = .ok f ∧ f.Means g bayesian repetitions := by
  set c : Lowering ℚ := ⟨g, bayesian, limit⟩
  have hlengths : ∀ d ∈ g.dists, d.supports.length = d.probabilities.length :=
    fun d hd => (hg.dists d hd).length_eq
  obtain ⟨f, nodes, kept, hcompile, hrepetitions, hlowered⟩ :=
    compile_ok (c := c) hg hlow hhigh repetitions
  obtain ⟨other, phonyCount, owners, hagain, hcompiled⟩ :=
    compile_compiled (c := c) hg.coherent hg.valid hlow hhigh repetitions
  have hsame : other = f := Except.ok.inj (hagain.symm.trans hcompile)
  subst hsame
  refine ⟨other, hcompile, ?_⟩
  constructor
  case describes => exact hlowered.describes
  case repetitions_eq => exact hrepetitions
  case consistent =>
    intro t ht
    exact ⟨hcompiled.vars_nodup hg.coherent hg.valid ht, hlowered.cards_eq hg t ht⟩
  case vars_perm =>
    exact (hcompiled.variables_perm hg.coherent hg.valid).trans other.layout.vars_perm.symm
  case weight =>
    intro a ha
    rw [← hrepetitions]
    exact hlowered.sumStates_phony hg ha
  case loads => exact hcompiled.loads hg.coherent hg.valid hlengths

/-- Only a clause limit outside the range keeps a proper graph from being compiled. -/
theorem compile_cases {g : CausalGraph ℚ} (hg : g.Proper) (repetitions : Nat) (bayesian : Bool)
    (limit : Nat) :
    (compile g repetitions bayesian limit = .error (.clauseLimit limit) ∧
      (limit < 2 ∨ maxClauseLimit < limit)) ∨
    ∃ f, compile g repetitions bayesian limit = .ok f ∧ f.Means g bayesian repetitions := by
  by_cases hlimit : limit < 2 ∨ maxClauseLimit < limit
  · exact Or.inl ⟨if_pos hlimit, hlimit⟩
  · rw [not_or, Nat.not_lt, Nat.not_lt] at hlimit
    exact Or.inr (compile_means hg repetitions bayesian hlimit.1 hlimit.2)

variable {f : FactorGraph ℚ} {g : CausalGraph ℚ} {bayesian : Bool} {repetitions : Nat}

theorem limit_of_compiled {limit : Nat} (hcompile : compile g repetitions bayesian limit = .ok f) :
    ¬ (limit < 2 ∨ maxClauseLimit < limit) := by
  intro houtside
  unfold compile at hcompile
  rw [if_pos houtside] at hcompile
  cases hcompile

theorem means_of_compiled (hg : g.Proper) {limit : Nat}
    (hcompile : compile g repetitions bayesian limit = .ok f) : f.Means g bayesian repetitions := by
  rcases compile_cases hg repetitions bayesian limit with ⟨hfault, _⟩ | ⟨other, hother, hmeans⟩
  · cases hfault.symm.trans hcompile
  · cases hother.symm.trans hcompile
    exact hmeans

/-! ## Weights are probabilities -/

theorem event_dependsOn {l : VariableLayout} (hl : l.Describes g bayesian) {event : World → Prop}
    (hevent : ∀ w other, World.Agrees g l.repetitions w other → (event w ↔ event other)) :
    DependsOn (fun a => event (l.world a)) {v | v ∈ l.worldVars} := by
  intro a b hab
  apply propext
  apply hevent
  apply agrees_of_paired hl hl
  intro p hp
  have hmem : p.1 ∈ l.worldVars := pairedVars_fst l l ▸ List.mem_map_of_mem hp
  have hdiagonal : p.1 = p.2 := by
    unfold pairedVars at hp
    simp only [List.mem_append, List.mem_flatMap, List.mem_map] at hp
    rcases hp with ⟨_, _, ⟨_, _, rfl⟩ | ⟨_, _, rfl⟩⟩ | ⟨_, _, rfl⟩ <;> rfl
  rw [← hdiagonal]
  exact hab _ hmem

/-- The weight of an event is its probability. -/
theorem Means.totalWeight_eq (hf : f.Means g bayesian repetitions) (hg : g.Proper)
    {property : Assignment → Prop} [DecidablePred property] {event : World → Prop}
    [DecidablePred event]
    (hevent : ∀ w other, World.Agrees g repetitions w other → (event w ↔ event other))
    (hproperty : ∀ a, InRange (g.stateCount bayesian) a →
      (property a ↔ event (f.layout.world a))) :
    totalWeight (g.stateCount bayesian) f.factors property =
      g.probability bayesian repetitions event := by
  have hrange : InRange (g.stateCount bayesian) (fun _ => 0) :=
    fun v => stateCount_pos hg.dists v
  have hrepetitions := hf.repetitions_eq
  subst hrepetitions
  set inside : Assignment → ℚ := fun a => if event (f.layout.world a) then 1 else 0 with hinside
  have hscope : DependsOn inside {v | v ∈ f.layout.worldVars} := by
    intro a b hab
    have hsame := event_dependsOn hf.describes hevent hab
    exact if_congr (iff_of_eq hsame) rfl rfl
  unfold totalWeight
  rw [sumStates_perm hf.vars_perm, sumStates_append, ← probability_eq hg.coherent hf.describes
    hevent (fun _ => 0)]
  apply sumStates_congr _ hrange
  intro b hb
  -- The event looks at the world only, so it leaves the sum over the phony variables.
  calc
    sumStates (g.stateCount bayesian) f.layout.phonyVars
        (fun a => if property a then jointWeight f.factors a else 0) b
        = sumStates (g.stateCount bayesian) f.layout.phonyVars
            (fun a => inside a * jointWeight f.factors a) b := by
          apply sumStates_congr _ hb
          intro a ha
          rw [hinside, ite_mul, one_mul, zero_mul]
          exact if_congr (hproperty a ha) rfl rfl
    _ = inside b * sumStates (g.stateCount bayesian) f.layout.phonyVars
          (jointWeight f.factors) b := by
          rw [sumStates_mul_left hscope (fun v hv => phonyVars_not_worldVars hv)]
    _ = if event (f.layout.world b) then
          g.worldProbability bayesian (f.layout.world b) f.layout.repetitions else 0 := by
          rw [hf.weight b hb, hinside, ite_mul, one_mul, zero_mul]

/-! ## Answers under an event -/

/-- Evidence that says of a world what an event does, which looks at nothing beyond the graph. -/
structure Observing (f : FactorGraph ℚ) (g : CausalGraph ℚ) (bayesian : Bool) (repetitions : Nat)
    (evidence : Evidence) (event : World → Prop) : Prop where
  below : evidence.Below (g.stateCount bayesian)
  congr : ∀ w other, World.Agrees g repetitions w other → (event w ↔ event other)
  agrees_iff : ∀ a, InRange (g.stateCount bayesian) a →
    (Agrees evidence (variablesOf f.factors) a ↔ event (f.layout.world a))

section Event

variable {evidence : Evidence} {event : World → Prop} [DecidablePred event]

theorem Means.evidenceWeight_eq (hf : f.Means g bayesian repetitions) (hg : g.Proper)
    (hevent : f.Observing g bayesian repetitions evidence event) :
    evidenceWeight (g.stateCount bayesian) f.factors evidence =
      g.probability bayesian repetitions event :=
  hf.totalWeight_eq hg hevent.congr hevent.agrees_iff

theorem Means.nodeWeight_eq (hf : f.Means g bayesian repetitions) (hg : g.Proper)
    (hevent : f.Observing g bayesian repetitions evidence event) {n : Nat}
    (hn : n < g.nodeCount) :
    stateWeight (g.stateCount bayesian) f.factors evidence (f.layout.nodeVar 0 n) 1 =
      g.probability bayesian repetitions (fun w => w.node 0 n = true ∧ event w) := by
  apply hf.totalWeight_eq hg
  · intro w other hw
    rw [hw.node 0 (Nat.zero_le _) n hn, hevent.congr w other hw]
  · intro a ha
    have hnode : a (f.layout.nodeVar 0 n) = 1 ↔ (f.layout.world a).node 0 n = true :=
      decide_eq_true_iff.symm
    rw [hevent.agrees_iff a ha, hnode]
    exact and_comm

theorem Means.drawWeight_eq (hf : f.Means g bayesian repetitions) (hg : g.Proper)
    (hevent : f.Observing g bayesian repetitions evidence event) {dist : Nat}
    (hdist : dist < g.distCount) (state : Nat) :
    stateWeight (g.stateCount bayesian) f.factors evidence dist state =
      g.probability bayesian repetitions (fun w => w.draw dist = state ∧ event w) := by
  apply hf.totalWeight_eq hg
  · intro w other hw
    rw [hw.draw dist hdist, hevent.congr w other hw]
  · intro a ha
    rw [hevent.agrees_iff a ha]
    exact and_comm

variable {model : TableNetwork ℚ}

theorem Means.partition_event (hf : f.Means g bayesian repetitions) (hg : g.Proper)
    (hevent : f.Observing g bayesian repetitions evidence event)
    (hmodel : model.Holds (g.stateCount bayesian) f.factors) :
    AnswersWith model.limit (g.probability bayesian repetitions event)
      (fun _ => 0 < g.probability bayesian repetitions event) (model.partition evidence) := by
  obtain ⟨order, horder, hgreedy⟩ := TableNetwork.partition_eq_inOrder hmodel hevent.below
  have hspec := TableNetwork.partitionInOrder_spec (stateCount_pos hg.dists) hmodel hevent.below
    horder
  rw [← hgreedy, hf.evidenceWeight_eq hg hevent] at hspec
  exact hspec.imp (fun _ hright => hright.1 ▸ hright.2)

/-- The belief in the states of a variable is their share of the probability of the event. -/
theorem Means.belief_event (hf : f.Means g bayesian repetitions) (hg : g.Proper)
    (hevent : f.Observing g bayesian repetitions evidence event)
    (hmodel : model.Holds (g.stateCount bayesian) f.factors) {v : Nat}
    (hv : v ∈ variablesOf f.factors) :
    AnswersWith model.limit (g.probability bayesian repetitions event)
      (fun belief => 0 < g.probability bayesian repetitions event ∧
        belief = (List.range (g.stateCount bayesian v)).map (fun state =>
          stateWeight (g.stateCount bayesian) f.factors evidence v state /
            g.probability bayesian repetitions event))
      (model.belief evidence v) := by
  obtain ⟨order, horder, hgreedy⟩ := TableNetwork.belief_eq_inOrder hmodel hevent.below v
  have hspec := TableNetwork.beliefInOrder_spec (stateCount_pos hg.dists) hmodel hevent.below hv
    horder
  unfold TableNetwork.ExactBelief TableNetwork.exactShares at hspec
  rw [← hgreedy, hf.evidenceWeight_eq hg hevent] at hspec
  exact hspec

theorem Means.nodeVar_mem (hf : f.Means g bayesian repetitions) {replica n : Nat}
    (hreplica : replica ≤ repetitions) (hn : n < g.nodeCount) :
    f.layout.nodeVar replica n ∈ variablesOf f.factors := by
  rw [hf.vars_perm.mem_iff]
  refine List.mem_append_right _ (List.mem_append_left _ (List.mem_flatMap.mpr ⟨replica, ?_, ?_⟩))
  · rw [hf.repetitions_eq, List.mem_range]
    exact Nat.lt_succ_of_le hreplica
  · rw [← hf.describes.nodeCount_eq] at hn
    exact List.mem_append_left _ (List.mem_map_of_mem (List.mem_range.mpr hn))

theorem Means.dist_mem (hf : f.Means g bayesian repetitions) {dist : Nat}
    (hdist : dist < g.distCount) : dist ∈ variablesOf f.factors := by
  rw [hf.vars_perm.mem_iff]
  rw [← hf.describes.distCount_eq] at hdist
  exact List.mem_append_right _ (List.mem_append_right _ (List.mem_range.mpr hdist))

/-- The belief in the second state of a node is its probability given the event. -/
theorem Means.belief_node (hf : f.Means g bayesian repetitions) (hg : g.Proper)
    (hevent : f.Observing g bayesian repetitions evidence event)
    (hmodel : model.Holds (g.stateCount bayesian) f.factors) {n : Nat} (hn : n < g.nodeCount) :
    AnswersWith model.limit (g.probability bayesian repetitions event)
      (fun belief => 0 < g.probability bayesian repetitions event ∧
        belief.getD 1 0 =
          g.probability bayesian repetitions (fun w => w.node 0 n = true ∧ event w) /
            g.probability bayesian repetitions event)
      (model.belief evidence (f.layout.nodeVar 0 n)) := by
  apply (hf.belief_event hg hevent hmodel (hf.nodeVar_mem (Nat.zero_le _) hn)).imp
  rintro belief ⟨hpositive, rfl⟩
  have hstates : g.stateCount bayesian (f.layout.nodeVar 0 n) = 2 := offset_states hf.describes 0 n
  refine ⟨hpositive, ?_⟩
  rw [hstates, ← hf.nodeWeight_eq hg hevent hn]
  rfl

/-- The belief in what a distribution draws is the probability of the draw given the event. -/
theorem Means.belief_draw (hf : f.Means g bayesian repetitions) (hg : g.Proper)
    (hevent : f.Observing g bayesian repetitions evidence event)
    (hmodel : model.Holds (g.stateCount bayesian) f.factors) {dist : Nat}
    (hdist : dist < g.distCount) :
    AnswersWith model.limit (g.probability bayesian repetitions event)
      (fun belief => 0 < g.probability bayesian repetitions event ∧
        belief = g.drawsGiven bayesian repetitions event dist)
      (model.belief evidence dist) := by
  apply (hf.belief_event hg hevent hmodel (hf.dist_mem hdist)).imp
  rintro belief ⟨hpositive, rfl⟩
  refine ⟨hpositive, ?_⟩
  apply List.map_congr_left
  intro state _
  rw [hf.drawWeight_eq hg hevent hdist]

end Event

end FactorGraph

/-! ## Histories as evidence -/

/-- The batches of a history hold in the replicas behind the first one, in order. -/
def World.Holds (w : World) (history : List Batch) : Prop :=
  ∀ entry ∈ history.zipIdx, ∀ observed ∈ entry.1, w.node (entry.2 + 1) observed.1 = observed.2

instance (history : List Batch) : DecidablePred (fun w : World => w.Holds history) :=
  fun w => inferInstanceAs (Decidable (∀ entry ∈ history.zipIdx, ∀ observed ∈ entry.1,
    w.node (entry.2 + 1) observed.1 = observed.2))

/-- A batch gives one value to each of some nodes. -/
structure CausalGraph.Observes {α : Type} (g : CausalGraph α) (batch : Batch) : Prop where
  distinct : (batch.map Prod.fst).Nodup
  node_lt : ∀ observed ∈ batch, observed.1 < g.nodeCount

theorem CausalGraph.batchOf_observes {α : Type} (g : CausalGraph α)
    (records : List (String × Bool)) : g.Observes (g.batchOf (.ofRecords records)) := by
  have hempty : (([] : Observation).map Prod.fst).Nodup := List.nodup_nil
  have hnames : ((Observation.ofRecords records).map Prod.fst).Nodup :=
    Arrival.keys_putAll_nodup hempty records
  generalize Observation.ofRecords records = observation at hnames ⊢
  constructor
  case distinct =>
    have hids : (g.batchOf observation).map Prod.fst =
        (observation.map Prod.fst).filterMap g.nodeId? := by
      unfold CausalGraph.batchOf
      rw [List.map_filterMap, List.filterMap_map]
      congr 1
      funext entry
      simp [Function.comp_def]
    rw [hids]
    apply hnames.filterMap
    intro name other id hname hother
    obtain ⟨hmem, rfl⟩ := Arrival.position?_eq_some_iff.mp hname
    obtain ⟨_, hsame⟩ := Arrival.position?_eq_some_iff.mp hother
    exact List.idxOf_inj hmem |>.mp hsame
  case node_lt =>
    intro observed hobserved
    obtain ⟨entry, _, hentry⟩ := List.mem_filterMap.mp hobserved
    obtain ⟨id, hid, rfl⟩ := Option.map_eq_some_iff.mp hentry
    exact nodeIn?_lt hid

namespace VariableLayout

/-- The states that some values give to the nodes of some replicas. -/
def boundEntries (l : VariableLayout) (entries : List (Nat × Nat × Bool)) : Evidence :=
  entries.map (fun entry => (l.nodeVar entry.1 entry.2.1, entry.2.2.toNat))

/-- The states that a batch gives to the nodes of a replica. -/
def boundBatch (l : VariableLayout) (replica : Nat) (batch : Batch) : Evidence :=
  batch.map (fun observed => (l.nodeVar replica observed.1, observed.2.toNat))

def boundHistory (l : VariableLayout) (history : List Batch) : Evidence :=
  history.zipIdx.flatMap (fun entry => l.boundBatch (entry.2 + 1) entry.1)

variable {l : VariableLayout} {g : CausalGraph ℚ} {bayesian : Bool} {history : List Batch}

theorem boundBatch_keys {batch : Batch} (hbatch : g.Observes batch) (replica : Nat) :
    ((l.boundBatch replica batch).map Prod.fst).Nodup := by
  unfold boundBatch
  rw [List.map_map, List.Nodup, List.pairwise_map]
  apply (List.pairwise_map.mp hbatch.distinct).imp
  intro observed later hne heq
  exact hne (Nat.add_left_cancel heq)

theorem boundHistory_keys (hl : l.Describes g bayesian)
    (hhistory : ∀ batch ∈ history, g.Observes batch) :
    ((l.boundHistory history).map Prod.fst).Nodup := by
  have hreplicas : history.zipIdx.Pairwise (fun entry later => entry.2 ≠ later.2) :=
    List.pairwise_map.mp (List.nodup_zipIdx_map_snd history)
  unfold boundHistory
  rw [List.map_flatMap, List.Nodup, List.pairwise_flatMap]
  -- The nodes of one batch are distinct, and different batches are bound in disjoint blocks.
  constructor
  · intro entry hentry
    exact boundBatch_keys (hhistory _ (List.fst_mem_of_mem_zipIdx hentry)) _
  · apply hreplicas.imp_of_mem
    intro entry later hentry hlater hne v hv w hw
    have hblock : ∀ entry ∈ history.zipIdx, ∀ v ∈ (l.boundBatch (entry.2 + 1) entry.1).map Prod.fst,
        v ∈ l.Block (entry.2 + 1) := by
      intro entry hentry v hv
      obtain ⟨_, hbound, rfl⟩ := List.mem_map.mp hv
      obtain ⟨observed, hobserved, rfl⟩ := List.mem_map.mp hbound
      have hlt := (hhistory _ (List.fst_mem_of_mem_zipIdx hentry)).node_lt observed hobserved
      exact nodeVar_mem_block (hl.nodeCount_eq ▸ hlt) _
    rintro rfl
    exact not_mem_block_of_ne (fun heq => hne (Nat.succ.inj heq)) (hblock entry hentry v hv)
      (hblock later hlater v hw)

theorem nodeVar_states (hl : l.Describes g bayesian) (replica n : Nat) :
    g.stateCount bayesian (l.nodeVar replica n) = 2 :=
  offset_states hl replica n

theorem world_node_eq_iff (hl : l.Describes g bayesian) {a : Assignment}
    (ha : InRange (g.stateCount bayesian) a) {replica n : Nat} {value : Bool} :
    (l.world a).node replica n = value ↔ a (l.nodeVar replica n) = value.toNat := by
  have hlt := ha (l.nodeVar replica n)
  rw [nodeVar_states hl] at hlt
  change decide (a (l.nodeVar replica n) = 1) = value ↔ _
  generalize a (l.nodeVar replica n) = state at hlt ⊢
  rcases (by omega : state = 0 ∨ state = 1) with rfl | rfl <;> cases value <;> simp

end VariableLayout

namespace FactorGraph

variable {f : FactorGraph ℚ} {g : CausalGraph ℚ} {bayesian : Bool} {repetitions : Nat}

/-- Values that are bound to different nodes say that the nodes have these values. -/
theorem Means.observing_entries (hf : f.Means g bayesian repetitions)
    {entries : List (Nat × Nat × Bool)}
    (hkeys : ((f.layout.boundEntries entries).map Prod.fst).Nodup)
    (hwithin : ∀ entry ∈ entries, entry.1 ≤ repetitions ∧ entry.2.1 < g.nodeCount) :
    f.Observing g bayesian repetitions (f.layout.boundEntries entries)
      (fun w => ∀ entry ∈ entries, w.node entry.1 entry.2.1 = entry.2.2) where
  below := by
    intro bound hbound
    obtain ⟨entry, _, rfl⟩ := List.mem_map.mp hbound
    dsimp only
    rw [VariableLayout.nodeVar_states hf.describes]
    exact Bool.toNat_lt _
  congr := by
    intro w other hw
    apply forall₂_congr
    intro entry hentry
    obtain ⟨hreplica, hlt⟩ := hwithin entry hentry
    rw [hw.node _ hreplica _ hlt]
  agrees_iff := by
    intro a ha
    unfold Agrees
    simp only [Option.mem_def, Arrival.get?_eq_some_iff hkeys]
    constructor
    · intro hagrees entry hentry
      obtain ⟨hreplica, hlt⟩ := hwithin entry hentry
      rw [VariableLayout.world_node_eq_iff hf.describes ha]
      exact hagrees _ (hf.nodeVar_mem hreplica hlt) _ (List.mem_map_of_mem hentry)
    · intro hholds v _ s hbound
      obtain ⟨entry, hentry, heq⟩ := List.mem_map.mp hbound
      cases heq
      exact (VariableLayout.world_node_eq_iff hf.describes ha).mp (hholds entry hentry)

theorem Observing.of_iff {evidence : Evidence} {event other : World → Prop}
    (hevent : f.Observing g bayesian repetitions evidence event)
    (hiff : ∀ w, event w ↔ other w) : f.Observing g bayesian repetitions evidence other where
  below := hevent.below
  congr := by
    intro w w' hw
    rw [← hiff w, ← hiff w', hevent.congr w w' hw]
  agrees_iff := by
    intro a ha
    rw [hevent.agrees_iff a ha, hiff]

/-- A batch that is bound in a replica says that it holds there. -/
theorem Means.observing_batch (hf : f.Means g bayesian repetitions) {batch : Batch}
    (hbatch : g.Observes batch) {replica : Nat} (hreplica : replica ≤ repetitions) :
    f.Observing g bayesian repetitions (f.layout.boundBatch replica batch)
      (fun w => ∀ observed ∈ batch, w.node replica observed.1 = observed.2) := by
  have hentries : f.layout.boundEntries (batch.map (Prod.mk replica)) =
      f.layout.boundBatch replica batch := List.map_map
  rw [← hentries]
  apply (hf.observing_entries _ _).of_iff
  · intro w
    exact List.forall_mem_map
  · rw [hentries]
    exact VariableLayout.boundBatch_keys hbatch replica
  · rw [List.forall_mem_map]
    exact fun observed hobserved => ⟨hreplica, hbatch.node_lt observed hobserved⟩

theorem Means.observing_history {history : List Batch} (hf : f.Means g bayesian history.length)
    (hhistory : ∀ batch ∈ history, g.Observes batch) :
    f.Observing g bayesian history.length (f.layout.boundHistory history)
      (fun w => w.Holds history) := by
  have hentries : f.layout.boundEntries (history.zipIdx.flatMap (fun entry =>
      entry.1.map (Prod.mk (entry.2 + 1)))) = f.layout.boundHistory history := by
    unfold VariableLayout.boundEntries VariableLayout.boundHistory
    rw [List.map_flatMap]
    congr 1
    funext entry
    exact List.map_map
  rw [← hentries]
  apply (hf.observing_entries _ _).of_iff
  · intro w
    unfold World.Holds
    simp only [List.forall_mem_flatMap, List.forall_mem_map]
  · rw [hentries]
    exact VariableLayout.boundHistory_keys hf.describes hhistory
  · intro bound hbound
    obtain ⟨entry, hentry, hmem⟩ := List.mem_flatMap.mp hbound
    obtain ⟨observed, hobserved, rfl⟩ := List.mem_map.mp hmem
    exact ⟨List.snd_lt_of_mem_zipIdx hentry,
      (hhistory _ (List.fst_mem_of_mem_zipIdx hentry)).node_lt observed hobserved⟩

end FactorGraph

/-! ## Answers under a history -/

/-- The probability that a node holds in the first replica, given that a history holds in the
others. -/
def CausalGraph.predictive (g : CausalGraph ℚ) (bayesian : Bool) (history : List Batch)
    (n : Nat) : ℚ :=
  g.probability bayesian history.length (fun w => w.node 0 n = true ∧ w.Holds history) /
    g.probability bayesian history.length (fun w => w.Holds history)

end DerivationBelief

import DerivationBelief.Proofs.BackwardClosure
import DerivationBelief.Proofs.CycleChecks
import DerivationBelief.Proofs.ProvenanceBuilder
import DerivationBelief.Proofs.ProvenanceGraph
import DerivationBelief.Proofs.Pruning
import DerivationBelief.Proofs.PruningAgreement
import Mathlib.Tactic

/-!
# Facts become well-formed graphs

A feed gives its inputs before its clauses, so no input of the builder is derived and the graph of
the computed provenance is built.  The clauses that pruning retains raise a rank on tuples; doubled,
the rank leaves room for each clause just below its head, so the graph has no cycle either.
-/

namespace DerivationBelief

open Relation

/-! ## Ranks of tuples -/

theorem exists_rank {clauses : List GroundClause} (hacyclic : Acyclic (Supports clauses)) :
    ∃ rank : GroundTuple → Nat, ∀ s t, Supports clauses s t → rank s < rank t := by
  let index := ClauseIndex.ofClauses clauses
  let all := List.range clauses.length
  have hall : ∀ c < clauses.length, c ∈ all := fun c hc => List.mem_range.mpr hc
  have hnumbers : Acyclic (index.Feeds all) := by
    rw [← ClauseIndex.acyclic_feeds_iff]
    exact hacyclic.mono (fun _ _ => supports_of_feeds)
  refine ⟨fun t => behindCount (index.Feeds all) index.size
    ((ClauseIndex.mentioned clauses).idxOf t), ?_⟩
  intro s t hsupports
  have hmentioned : s ∈ ClauseIndex.mentioned clauses := by
    obtain ⟨clause, hclause, hs, _⟩ := hsupports
    exact ClauseIndex.mem_mentioned.mpr ⟨clause, hclause, Or.inr hs⟩
  exact behindCount_lt hnumbers (List.idxOf_lt_length_of_mem hmentioned)
    (ClauseIndex.feeds_idxOf (feeds_of_supports hall hsupports))

namespace ClausePruner

/-- The clauses that are retained for observed tuples have no cycle. -/
theorem activeClauses_acyclic (clauses : List GroundClause) (inputs observed : List GroundTuple)
    (augmented : Bool) :
    Acyclic (Supports (clausesAt clauses
      ((ofClausesWith clauses inputs augmented).activeClauses observed))) := by
  apply (chosen_acyclic clauses inputs augmented).mono
  rintro s t ⟨clause, hclause, hbody, hhead⟩
  obtain ⟨c, hc, hget⟩ := List.mem_filterMap.mp hclause
  have hchosen := (ClauseIndex.mem_activeRules.mp hc).2.1
  exact ⟨c, hchosen, clause, hget, hbody, hhead⟩

end ClausePruner

/-! ## Ranks of identifiers -/

namespace Provenance

variable {α : Type} {p : Provenance}

/-- A body tuple leads to its clause, and a clause to its head. -/
inductive Leads (p : Provenance) : ProvenanceId → ProvenanceId → Prop
  | body {k : Nat} {c : GroundClause} {t : GroundTuple} {id : ProvenanceId} :
      p.clauses[k]? = some c → t ∈ c.bodyTuples → p.tupleId? t = some id → Leads p id (.clause k)
  | head {k : Nat} {c : GroundClause} {id : ProvenanceId} :
      p.clauses[k]? = some c → p.tupleId? c.head = some id → Leads p (.clause k) id

/-- Doubled ranks of tuples, with the clauses that derive a tuple right in front of it. -/
def idRank (p : Provenance) (rank : GroundTuple → Nat) : ProvenanceId → Nat
  | .clause k => (p.clauses[k]?.map (fun c => 2 * rank c.head)).getD 0
  | id => ((p.tupleOf? id).map (fun t => 2 * rank t + 1)).getD 0

theorem Numbered.idRank_tuple (hp : p.Numbered) (rank : GroundTuple → Nat) {t : GroundTuple}
    {id : ProvenanceId} (hid : p.tupleId? t = some id) : p.idRank rank id = 2 * rank t + 1 := by
  rw [hp.tupleId?_eq_some_iff] at hid
  cases id with
  | clause k => cases hid
  | _ => simp [idRank, hid]

theorem Numbered.leads_acyclic (hp : p.Numbered) (hacyclic : Acyclic (Supports p.clauses)) :
    Acyclic p.Leads := by
  obtain ⟨rank, hrank⟩ := exists_rank hacyclic
  apply Acyclic.of_rank (p.idRank rank)
  intro x y hstep
  cases hstep with
  | @body k c t _ hc ht hid =>
      have hlower := hrank t c.head ⟨c, List.mem_of_getElem? hc, ht, rfl⟩
      have hclause : p.idRank rank (.clause k) = 2 * rank c.head := by simp [idRank, hc]
      rw [hp.idRank_tuple rank hid, hclause]
      omega
  | @head k c _ hc hid =>
      have hclause : p.idRank rank (.clause k) = 2 * rank c.head := by simp [idRank, hc]
      rw [hp.idRank_tuple rank hid, hclause]
      omega

/-- The place of an identifier among the nodes. -/
def placeOf (p : Provenance) (id : ProvenanceId) : Nat :=
  p.graphNodes.idxOf id.text

theorem Leads.mem_graphNodes {x y : ProvenanceId} (hp : p.Numbered) (hstep : p.Leads x y) :
    x.text ∈ p.graphNodes ∧ y.text ∈ p.graphNodes := by
  have htuple : ∀ {t : GroundTuple} {id : ProvenanceId}, p.tupleId? t = some id →
      id.text ∈ p.graphNodes := by
    intro t id hid
    exact Provenance.mem_graphNodes.mpr (Or.inr ⟨t, hp.mem_mentioned_of_tupleId? hid,
      tupleNode?_eq_some_iff.mpr ⟨id, hid, rfl⟩⟩)
  cases hstep with
  | body hc _ hid => exact ⟨htuple hid, clauseNode_mem_graphNodes hc⟩
  | head hc hid => exact ⟨clauseNode_mem_graphNodes hc, htuple hid⟩

theorem Numbered.leads_of_skeleton (hp : p.Numbered) {v w : Nat}
    (hleads : (p.skeleton α).Leads v w) :
    ∃ x y, p.placeOf x = v ∧ p.placeOf y = w ∧ p.Leads x y := by
  have hbody : ∀ {names : List String}, names ⊆ p.graphNodes →
      v ∈ CausalGraph.placesOf p.graphNodes names →
      ∃ node ∈ names, p.graphNodes.idxOf node = v := by
    intro names hsubset hv
    rw [CausalGraph.placesOf_eq hsubset] at hv
    obtain ⟨node, hnode, hplace⟩ := List.mem_map.mp hv
    exact ⟨node, Arrival.mem_distinct.mp hnode, hplace⟩
  obtain ⟨body, hd, hv⟩ := CausalGraph.leads_iff.mp hleads
  rcases hd with hsum | hprod
  · obtain ⟨⟨node, clauses⟩, hd, hplaced⟩ := List.mem_map.mp hsum
    obtain ⟨rfl, rfl⟩ := Prod.mk.inj hplaced
    obtain ⟨clause, hclause, hplace⟩ := hbody (hp.sums_resolvable.body_subset _ hd) hv
    obtain ⟨t, _, hnode, rfl⟩ := hp.mem_headToClauses.mp hd
    obtain ⟨k, c, hc, rfl, rfl⟩ := mem_clausesOf.mp hclause
    obtain ⟨id, hid, hname⟩ := tupleNode?_eq_some_iff.mp hnode
    exact ⟨.clause k, id, hplace, congrArg p.graphNodes.idxOf hname.symm, Leads.head hc hid⟩
  · obtain ⟨⟨node, subs⟩, hd, hplaced⟩ := List.mem_map.mp hprod
    obtain ⟨rfl, rfl⟩ := Prod.mk.inj hplaced
    obtain ⟨sub, hsub, hplace⟩ := hbody (hp.prods_resolvable.body_subset _ hd) hv
    obtain ⟨k, c, hc, rfl, rfl⟩ := mem_clauseToBody.mp hd
    obtain ⟨t, ht, hnode⟩ := List.mem_filterMap.mp hsub
    obtain ⟨id, hid, rfl⟩ := tupleNode?_eq_some_iff.mp hnode
    exact ⟨id, .clause k, hplace, rfl, Leads.body hc ht hid⟩

theorem Numbered.skeleton_acyclic (hp : p.Numbered) (hacyclic : Acyclic (Supports p.clauses)) :
    Acyclic (p.skeleton α).Leads := by
  refine (hp.leads_acyclic hacyclic).of_image p.placeOf ?_ (fun _ _ => hp.leads_of_skeleton)
  intro a b c d hfirst hsecond hplace
  have hb := (hfirst.mem_graphNodes hp).2
  exact ProvenanceId.text_injective ((List.idxOf_inj hb).mp hplace)

theorem graphWith_constructed {table : PriorTable α} {g : CausalGraph α}
    (hg : p.graphWith table = .ok g) : CausalGraph.Constructed g := by
  obtain ⟨built, hbuilt, hpriors⟩ := bind_eq_ok_iff.mp hg
  cases hpriors
  exact (CausalGraph.Constructed.build hbuilt).applyPriors table

/-- What holds of the graph of a provenance whose inputs are not derived. -/
theorem Numbered.graphWith_spec {β : Type} (hp : p.Numbered)
    (hsize : p.tupleIds.length ≤ Text.word64) (hapart : ∀ t ∈ p.inputs, ¬ p.Derives t)
    {table : PriorTable α} (htable : table.WellFormed) {ofClause : GroundClause → Option β}
    {ofInput : GroundTuple → Option β}
    (hnames : table.names = (p.annotated ofClause ofInput).map Prod.fst) :
    ∃ g, p.graphWith table = .ok g ∧ p.Depicts g ∧ p.StochasticBy g ofClause ofInput ∧
      (Acyclic (Supports p.clauses) → g.CycleFree) := by
  rcases hp.graphWith_cases hsize table with ⟨_, hvalid, hgraph⟩ | ⟨⟨t, hinput, hderives⟩, _⟩
  · obtain ⟨hshape, _⟩ := (p.skeleton α).applyPriors_spec htable
    refine ⟨_, hgraph, (hp.skeleton_depicts hsize hvalid).of_forgetPriors hshape,
      skeleton_stochasticBy htable hnames, ?_⟩
    intro hacyclic
    apply (graphWith_constructed hgraph).coherent.cycleFree
    have hsums := congrArg CausalGraph.sums hshape
    have hprods := congrArg CausalGraph.prods hshape
    have hskeleton : Acyclic (p.skeleton α).Leads := hp.skeleton_acyclic hacyclic
    apply hskeleton.mono
    intro v w hleads
    rw [CausalGraph.leads_iff] at hleads ⊢
    dsimp only [CausalGraph.forgetPriors] at hsums hprods
    rwa [hsums, hprods] at hleads
  · exact absurd hderives (hapart t hinput)

end Provenance

/-! ## Feeds -/

namespace ProvenanceBuilder

theorem ofFeed_listed (name : String) (prune augment : Bool) (feed : FactFeed) :
    (ofFeed name prune augment feed).Listed :=
  (new_listed name prune augment).run
    [.addRules feed.rules, .addInputs feed.inputs, .addClauses feed.clauses,
      .addOutputs feed.outputs]

/-- A feed gives its inputs before its clauses, so no input of the builder is derived. -/
theorem ofFeed_apart (name : String) (prune augment : Bool) (feed : FactFeed)
    (observed : List GroundTuple) :
    ∀ t ∈ ((ofFeed name prune augment feed).provenanceFor observed).inputs,
      ¬ ((ofFeed name prune augment feed).provenanceFor observed).Derives t := by
  rintro t hinput ⟨c, hc, hhead⟩
  have hgiven : t ∈ (ofFeed name prune augment feed).inputs :=
    (mem_inputs_provenanceFor.mp hinput).1
  have hclause : c ∈ (ofFeed name prune augment feed).clauses := by
    obtain ⟨k, _, hget⟩ := List.mem_filterMap.mp hc
    exact List.mem_of_getElem? hget
  have hadded : c ∈ feed.clauses := by
    rcases mem_clauses_addClauses.mp hclause with hold | hadded
    · cases hold
    · exact hadded
  exact (mem_inputs_addClauses.mp hgiven).2 c hadded hhead

theorem provenanceFor_acyclic {b : ProvenanceBuilder} (hprune : b.prune = true)
    (observed : List GroundTuple) : Acyclic (Supports (b.provenanceFor observed).clauses) := by
  have hretained : b.retained observed =
      (ClausePruner.ofClausesWith b.clauses b.inputs b.augment).activeClauses observed := by
    unfold retained ClausePruner.ofClausesWith
    rw [if_pos hprune]
  have hclauses : (b.provenanceFor observed).clauses =
      ClausePruner.clausesAt b.clauses (b.retained observed) := rfl
  rw [hclauses, hretained]
  exact ClausePruner.activeClauses_acyclic b.clauses b.inputs observed b.augment

/-- Facts always become a well-formed graph, whether priors are given to each node or tied by keys:
clauses are products, derived tuples are sums, all other tuples are singletons, and the nodes with a
given prior are the stochastic ones.  With pruning the graph has no cycle.  Identifiers carry numbers
of 64 bits. -/
theorem graph_of_facts (name : String) (prune augment : Bool) (feed : FactFeed) {κ α : Type}
    [DecidableEq κ] (clausePrior : GroundClause → Option (Distribution α))
    (inputPrior : GroundTuple → Option (Distribution α))
    (clauseTied : GroundClause → Option (κ × Distribution α))
    (inputTied : GroundTuple → Option (κ × Distribution α)) :
    ∃ p, (ofFeed name prune augment feed).compute.provenance = .ok p ∧
      (p.tupleIds.length ≤ Text.word64 →
        (∃ g, p.causalGraph clausePrior inputPrior = .ok g ∧ p.Depicts g ∧
          p.StochasticBy g clausePrior inputPrior ∧ (prune = true → g.CycleFree)) ∧
        ∃ g, p.tiedCausalGraph clauseTied inputTied = .ok g ∧ p.Depicts g ∧
          p.StochasticBy g clauseTied inputTied ∧ (prune = true → g.CycleFree)) := by
  set b := ofFeed name prune augment feed with hb
  have hp := (ofFeed_listed name prune augment feed).provenanceFor_numbered b.outputs
  have hapart := ofFeed_apart name prune augment feed b.outputs
  rw [← hb] at hp hapart
  have hprune : b.prune = prune := by
    have hkeeps : ∀ (clauses : List GroundClause) (b : ProvenanceBuilder),
        (b.addClauses clauses).prune = b.prune := by
      intro clauses
      induction clauses with
      | nil => exact fun _ => rfl
      | cons c clauses ih => exact fun b => ih (b.addClause c)
    exact hkeeps feed.clauses _
  refine ⟨b.provenanceFor b.outputs, rfl, fun hsize => ⟨?_, ?_⟩⟩
  · obtain ⟨htable, hnames⟩ := PriorTable.ofIndependent_spec
      ((b.provenanceFor b.outputs).annotated clausePrior inputPrior)
    obtain ⟨g, hg, hdepicts, hstochastic, hfree⟩ := hp.graphWith_spec hsize hapart htable hnames
    exact ⟨g, hg, hdepicts, hstochastic, fun hon =>
      hfree (provenanceFor_acyclic (hprune.trans hon) b.outputs)⟩
  · obtain ⟨table, htied, htable, hnames⟩ := PriorTable.ofKeyed_spec
      ((b.provenanceFor b.outputs).annotated clauseTied inputTied)
    obtain ⟨g, hg, hdepicts, hstochastic, hfree⟩ := hp.graphWith_spec hsize hapart htable hnames
    refine ⟨g, ?_, hdepicts, hstochastic, fun hon =>
      hfree (provenanceFor_acyclic (hprune.trans hon) b.outputs)⟩
    unfold Provenance.tiedCausalGraph
    rw [htied]
    exact hg

/-! ## A chain of facts -/

open ClausePruner (letter)

/-- The input `I` derives `A`, and both derive the output `B`. -/
def chainFeed : FactFeed :=
  { clauses := [.positive 0 (letter "A") [letter "I"],
      .positive 1 (letter "B") [letter "A", letter "I"]]
    inputs := [letter "I"]
    outputs := [letter "B"]
    rules := [] }

def chainProvenance : Provenance :=
  { name := "chain"
    clauses := chainFeed.clauses
    inputs := [letter "I"]
    outputs := [letter "B"]
    hidden := [letter "A"]
    tupleIds := [(letter "I", .input 0), (letter "B", .output 0), (letter "A", .hidden 0)]
    rules := [] }

theorem chainFeed_graph :
    (ofFeed "chain" true true chainFeed).compute.provenance = .ok chainProvenance ∧
      chainProvenance.tupleIds.length ≤ Text.word64 ∧
      ∃ g : CausalGraph ℚ, chainProvenance.causalGraph (fun _ => none) (fun _ => none) = .ok g ∧
        chainProvenance.Depicts g ∧ g.CycleFree := by
  have hchain : (ofFeed "chain" true true chainFeed).compute.provenance =
      .ok chainProvenance := by decide +kernel
  have hsize : chainProvenance.tupleIds.length ≤ Text.word64 := by decide
  obtain ⟨p, hp, hgraphs⟩ := graph_of_facts "chain" true true chainFeed
    (fun _ => (none : Option (Distribution ℚ))) (fun _ => none)
    (fun _ => (none : Option (String × Distribution ℚ))) (fun _ => none)
  cases hp.symm.trans hchain
  obtain ⟨⟨g, hg, hdepicts, _, hfree⟩, _⟩ := hgraphs hsize
  exact ⟨hchain, hsize, g, hg, hdepicts, hfree rfl⟩

end ProvenanceBuilder

end DerivationBelief

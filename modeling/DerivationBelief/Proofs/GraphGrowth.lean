import DerivationBelief.Proofs.ContradictionFilter
import DerivationBelief.Proofs.ExactFractions
import DerivationBelief.Proofs.GrownOrder
import Mathlib.Tactic

/-!
# Growth of the graph

Whatever was appended to a learner that differentiates, and whatever it was asked in between, its
graph grows without a fault.  What it grows is the given graph with one family of nodes for each
sighting of its history.
-/

namespace DerivationBelief

variable {α : Type}

namespace DifferentiatingLearner

variable [Scalar α] {l : DifferentiatingLearner α} {g graph : CausalGraph α}

/-! ## Growing is editing -/

omit [Scalar α] in
theorem growFamily_constructed {round : Nat} {grown next : Growing α} {entry : Nat × α}
    (hgrown : grown.graph.Constructed) (hnext : l.growFamily round grown entry = .ok next) :
    next.graph.Constructed := by
  unfold growFamily at hnext
  split at hnext
  · cases hnext
  · cases hnext
    exact (((hgrown.addNode _).addNode _).addNode _).addNode _

theorem connect_constructed {next : CausalGraph α} {f : ReplicaFamily α} (hg : g.Constructed)
    (hnext : l.connect g f = .ok next) : next.Constructed := by
  unfold connect at hnext
  obtain ⟨derived, hderived, hnext⟩ := bind_eq_ok_iff.mp hnext
  obtain ⟨rule, _, hnext⟩ := bind_eq_ok_iff.mp hnext
  obtain ⟨replicated, hreplicated, hnext⟩ := bind_eq_ok_iff.mp hnext
  obtain ⟨clauses, hclauses, hnext⟩ := bind_eq_ok_iff.mp hnext
  obtain ⟨share, _, hnext⟩ := bind_eq_ok_iff.mp hnext
  have hfirst := (hg.setProd (CausalGraph.mapError_eq_ok hderived)).setPrior f.derivationName rule
  have hsecond := hfirst.setSum (CausalGraph.mapError_eq_ok hreplicated)
  have hthird := hsecond.setProd (CausalGraph.mapError_eq_ok hclauses)
  exact (hthird.setPrior f.clauseName share).setSum (CausalGraph.mapError_eq_ok hnext)

omit [Scalar α] in
theorem rewire_constructed {latest : List (Nat × Nat)} {next : CausalGraph α} {d : Nat × List Nat}
    (hg : g.Constructed) (hnext : rewire latest g d = .ok next) : next.Constructed := by
  unfold rewire at hnext
  split at hnext
  · exact hg.setProd (CausalGraph.mapError_eq_ok hnext)
  · cases hnext
    exact hg

theorem differentiate_constructed (hl : l.graph.Constructed) (hg : l.differentiate = .ok g) :
    g.Constructed := by
  unfold differentiate at hg
  obtain ⟨grown, hgrown, hg⟩ := bind_eq_ok_iff.mp hg
  obtain ⟨rewired, hrewired, hg⟩ := bind_eq_ok_iff.mp hg
  obtain ⟨last, hlast, hg⟩ := bind_eq_ok_iff.mp hg
  obtain ⟨_, _, hg⟩ := bind_eq_ok_iff.mp hg
  cases hg
  have hfamilies : grown.graph.Constructed := by
    apply foldlM_keeps (fun grown : Growing α => grown.graph.Constructed) _
      (hl.withName _) hgrown
    intro grown round next hkeeps hnext
    exact foldlM_keeps (fun grown : Growing α => grown.graph.Constructed)
      (fun _ _ _ => growFamily_constructed) hkeeps hnext
  have hproducts : rewired.Constructed :=
    foldlM_keeps CausalGraph.Constructed (fun _ _ _ => rewire_constructed) hfamilies hrewired
  exact foldlM_keeps CausalGraph.Constructed (fun _ _ _ => connect_constructed) hproducts hlast

/-! ## What is grown -/

/-- The families that a history adds to a graph. -/
def families (graph : CausalGraph α) (history : List Batch) : List (ReplicaFamily α) :=
  plannedFamilies graph.nodes graph.nodeCount (sightings history)

/-- The graph that a history makes of a graph. -/
structure GrownFrom (rule : α) (graph : CausalGraph α) (history : List Batch)
    (g : CausalGraph α) : Prop where
  name_eq : g.name = graph.name ++ s!"_Dyna_{history.length}"
  grown : Grown graph (sightings history) g
  nodes_nodup : g.nodes.Nodup
  valid : g.validate = .ok ()
  canonical_priors : ∀ id < graph.nodeCount,
    g.prior? id = if id ∈ graph.prods.map Prod.fst then some (.atOne rule) else none
  family_priors : ∀ f ∈ families graph history, FamilyPriors rule f g
  cycleFree : Acyclic graph.Leads → g.CycleFree

omit [Scalar α] in
theorem sighted_sightings {history : List Batch} (hgraph : graph.Constructed)
    (hnames : ∀ node ∈ graph.nodes, ¬ "_Dyna".toList <+: node.toList)
    (hhistory : ∀ batch ∈ history, graph.Observes batch) :
    Sighted graph.nodes (sightings history) where
  distinct := hgraph.coherent.nodes_nodup
  unmarked := hnames
  node_lt := fun _ hs => Sighting.node_lt hhistory hs
  apart := sightings_apart fun batch hbatch => (hhistory batch hbatch).distinct

/-- A graph that has the nodes of its families and products over the latest replicas, before any
family is connected. -/
structure Redirected (graph base : CausalGraph α) (seen : List Sighting) (g : CausalGraph α) :
    Prop where
  nodes_eq : g.nodes = graph.nodes ++ seen.flatMap (familyNames graph.nodes)
  singletons_eq : g.singletons = graph.singletons
  sums_eq : g.sums = graph.sums
  prods_eq : g.prods = graph.prods.map (redirect graph.nodeCount seen)
  prior_eq : ∀ id, g.prior? id = base.prior? id
  refers : g.Refers
  below : Below graph.nodeCount g

/-- The nodes that have been grown leave all derivations and priors as they were. -/
theorem Grew.redirected {d : Distribution α} {ids : List Nat} {name : String}
    {seen : List Sighting} {grown : Growing α}
    (hgrew : Grew (l.graph.withName name) seen grown) (hgraph : graph.Coherent)
    (hbase : CausalGraph.Primed d ids graph.forgetPriors l.graph) :
    Redirected graph l.graph seen
      { grown.graph with prods := graph.prods.map (redirect graph.nodeCount seen) } := by
  have hnodes : l.graph.nodes = graph.nodes := hbase.nodes_eq
  constructor
  case nodes_eq =>
    rw [← hnodes]
    exact congrArg CausalGraph.nodes hgrew.graph_eq
  case singletons_eq =>
    exact (congrArg CausalGraph.singletons hgrew.graph_eq).trans hbase.singletons_eq
  case sums_eq => exact (congrArg CausalGraph.sums hgrew.graph_eq).trans hbase.sums_eq
  case prods_eq => rfl
  case prior_eq =>
    intro id
    change grown.graph.prior? id = _
    rw [hgrew.graph_eq]
    rfl
  case refers =>
    change grown.graph.Refers
    rw [hgrew.graph_eq]
    exact hbase.constructed.refers
  case below =>
    have hsums : grown.graph.sums = graph.sums :=
      (congrArg CausalGraph.sums hgrew.graph_eq).trans hbase.sums_eq
    have hstochastic : grown.graph.stochastic = l.graph.stochastic := by
      rw [hgrew.graph_eq]
      rfl
    constructor
    case sums => exact hsums ▸ hgraph.sums.head_lt
    case prods =>
      intro d hd
      obtain ⟨old, hold, rfl⟩ := List.mem_map.mp hd
      exact hgraph.prods.head_lt old hold
    case stochastic =>
      intro entry hentry
      have hold : entry ∈ l.graph.stochastic := hstochastic ▸ hentry
      exact (hbase.constructed.coherent.stochastic_lt entry hold).1.trans_eq
        (congrArg List.length hnodes)

/-- The nodes of all families can be grown, and the products be redirected to them. -/
theorem exists_redirected {d : Distribution α} {ids : List Nat} (name : String)
    {seen : List Sighting} (hgraph : graph.Coherent)
    (hbase : CausalGraph.Primed d ids graph.forgetPriors l.graph)
    (hflat : flatRounds l.rounds = seen.map (fun s => (s.round, s.node, s.count.share)))
    (hseen : Sighted graph.nodes seen) :
    ∃ grown rewired, l.growNodes (l.graph.withName name) = .ok grown ∧
      grown.families = plannedFamilies graph.nodes graph.nodeCount seen ∧
      l.graph.prods.foldlM (rewire grown.latest) grown.graph = .ok rewired ∧
      rewired.name = name ∧ Redirected graph l.graph seen rewired := by
  have hnodes : l.graph.nodes = graph.nodes := hbase.nodes_eq
  have hcount : l.graph.nodeCount = graph.nodeCount := congrArg List.length hnodes
  have hprods : l.graph.prods = graph.prods := hbase.prods_eq
  obtain ⟨grown, hgrown, hgrew⟩ : ∃ grown, l.growNodes (l.graph.withName name) = .ok grown ∧
      Grew (l.graph.withName name) seen grown := exists_growNodes rfl hflat (hnodes ▸ hseen)
  have hgrownCount : grown.graph.nodeCount = graph.nodeCount + 4 * seen.length := by
    rw [hgrew.graph_eq]
    change (l.graph.nodes ++ seen.flatMap (familyNames l.graph.nodes)).length = _
    rw [List.length_append, length_flatMap_familyNames, hnodes]
    rfl
  have hrewired : l.graph.prods.foldlM (rewire grown.latest) grown.graph = .ok { grown.graph with
      prods := graph.prods.map (redirect graph.nodeCount seen) } := by
    have hover : CausalGraph.DerivationsOver graph.nodeCount ([] ++ graph.prods) := hgraph.prods
    rw [hprods]
    apply rewire_all _ hgrownCount hover
    · rw [hgrew.graph_eq]
      exact hprods
    · intro node
      exact (hgrew.latest_eq node).trans (congrArg (latestReplica · seen node) hcount)
  refine ⟨grown, _, hgrown, ?_, hrewired, congrArg CausalGraph.name hgrew.graph_eq,
    hgrew.redirected hgraph hbase⟩
  rw [hgrew.families_eq]
  change plannedFamilies l.graph.nodes l.graph.nodeCount seen = _
  rw [hnodes, hcount]

/-- The families can be connected, which leaves the priors of all other nodes alone. -/
theorem Redirected.exists_connected {base : CausalGraph α} {seen : List Sighting}
    (hg : Redirected graph base seen g) (hα : CountsInUnit α)
    (hrule : Scalar.inUnit l.context.ruleProbability = true)
    (hshares : ∀ s ∈ seen, Scalar.inUnit (s.count.share : α) = true)
    (hseen : Sighted graph.nodes seen) :
    ∃ last, (plannedFamilies graph.nodes graph.nodeCount seen).foldlM l.connect g = .ok last ∧
      last.name = g.name ∧ Grown graph seen last ∧
      (∀ id < graph.nodeCount, last.prior? id = base.prior? id) ∧
      ∀ f ∈ plannedFamilies graph.nodes graph.nodeCount seen,
        FamilyPriors l.context.ruleProbability f last := by
  have hnodes : g.nodes = graph.nodes ++ (seen ++ []).flatMap (familyNames graph.nodes) := by
    rw [List.append_nil]
    exact hg.nodes_eq
  have hconnected := foldlM_connect hα hrule hshares ((List.append_nil _).symm ▸ hseen) hg.below
    hnodes
  have hto := connectedTo_foldl l.context.ruleProbability g
    (plannedFamilies graph.nodes graph.nodeCount seen)
  obtain ⟨_, hold, hpriors⟩ :=
    priors_foldl hg.below hg.refers l.context.ruleProbability graph.nodes seen
  refine ⟨_, hconnected, hto.name_eq, ?_, fun id hid => (hold id hid).trans (hg.prior_eq id),
    hpriors⟩
  constructor
  case nodes_eq => exact hto.nodes_eq.trans hg.nodes_eq
  case singletons_eq => exact hto.singletons_eq.trans hg.singletons_eq
  case sums_eq => exact hg.sums_eq ▸ hto.sums_eq
  case prods_eq => exact hg.prods_eq ▸ hto.prods_eq

theorem exists_differentiate (hα : CountsInUnit α) {history : List Batch}
    (hgraph : graph.Constructed) (hvalid : graph.validate = .ok ())
    (hnames : ∀ node ∈ graph.nodes, ¬ "_Dyna".toList <+: node.toList)
    (hrule : Scalar.inUnit l.context.ruleProbability = true)
    (hhistory : ∀ batch ∈ history, graph.Observes batch) (hcount : history.length < Text.word32)
    (hbase : CausalGraph.Primed (.atOne l.context.ruleProbability) (graph.prods.map Prod.fst)
      graph.forgetPriors l.graph)
    (hrounds : l.rounds = (countAll history).2) :
    ∃ g, l.differentiate = .ok g ∧ GrownFrom l.context.ruleProbability graph history g := by
  have hcoherent := hgraph.coherent
  have hseen := sighted_sightings hgraph hnames hhistory
  have hdistinct : ∀ batch ∈ history, (batch.map Prod.fst).Nodup :=
    fun batch hbatch => (hhistory batch hbatch).distinct
  obtain ⟨_, hlength, hflat⟩ := flatRounds_countAll (α := α) hdistinct
  rw [← hrounds] at hlength hflat
  have hshares : ∀ s ∈ sightings history, Scalar.inUnit (s.count.share : α) = true := by
    intro s hs
    obtain ⟨hpositive, hle, hround⟩ := Sighting.count_le hdistinct hs
    exact hα.share_inUnit hpositive hle
      ((hround.trans (Sighting.round_le hs)).trans_lt hcount)
  obtain ⟨grown, rewired, hgrown, hfamilies, hrewired, hname, hredirected⟩ :=
    exists_redirected (l.graph.name ++ s!"_Dyna_{l.rounds.length}") hcoherent hbase hflat hseen
  obtain ⟨last, hconnected, hlastName, hlast, hold, hpriors⟩ :=
    hredirected.exists_connected hα hrule hshares hseen
  have hlastValid : last.validate = .ok () := hlast.validate hcoherent hvalid
  have hdifferentiate : l.differentiate = .ok last := by
    unfold differentiate
    refine bind_eq_ok_iff.mpr ⟨grown, hgrown, bind_eq_ok_iff.mpr ⟨rewired, hrewired,
      bind_eq_ok_iff.mpr ⟨last, hfamilies ▸ hconnected, ?_⟩⟩⟩
    rw [hlastValid]
    rfl
  have hlastCoherent := (differentiate_constructed hbase.constructed hdifferentiate).coherent
  refine ⟨last, hdifferentiate, ?_⟩
  constructor
  case name_eq =>
    have hbaseName : l.graph.name = graph.name := hbase.name_eq
    rw [hlastName, hname, hlength, hbaseName]
  case grown => exact hlast
  case nodes_nodup => exact hlastCoherent.nodes_nodup
  case valid => exact hlastValid
  case canonical_priors =>
    intro id hid
    rw [hold id hid, hbase.prior_eq]
    rfl
  case family_priors => exact hpriors
  case cycleFree =>
    intro hacyclic
    exact hlastCoherent.cycleFree
      (hlast.acyclic hcoherent (fun _ hs => Sighting.node_lt hhistory hs) hacyclic)

/-! ## Observations -/

omit [Scalar α] in
theorem observationNodes_eq (l : DifferentiatingLearner α) (g : CausalGraph α) :
    l.observationNodes g = (flatRounds l.rounds).filterMap (fun entry =>
      (l.graph.nodes[entry.2.1]?).bind (fun node => g.nodeId? (addedName "O" entry.1 node))) := by
  unfold observationNodes flatRounds
  rw [List.filterMap_flatMap]
  congr 1
  funext round
  rw [List.filterMap_map]
  congr 1
  funext entry
  simp only [Function.comp]
  cases l.graph.nodes[entry.1]? <;> rfl

/-- Of each family the last node is observed. -/
theorem observationNodes_eq_map {seen : List Sighting} (hg : Grown graph seen g)
    (hseen : Sighted graph.nodes seen) (hnodes : l.graph.nodes = graph.nodes)
    (hrounds : flatRounds l.rounds = seen.map (fun s => (s.round, s.node, s.count.share))) :
    l.observationNodes g =
      (plannedFamilies (α := α) graph.nodes graph.nodeCount seen).map ReplicaFamily.observed := by
  rw [observationNodes_eq, hrounds, List.filterMap_map, hnodes]
  -- The place of a family is known from the sightings in front of it.
  suffices hfront : ∀ front rest, seen = front ++ rest →
      front.filterMap (fun s => (graph.nodes[s.node]?).bind
        (fun node => g.nodeId? (addedName "O" s.round node))) =
        (plannedFamilies (α := α) graph.nodes graph.nodeCount front).map ReplicaFamily.observed from
    hfront seen [] (List.append_nil seen).symm
  intro front
  induction front using List.reverseRecOn with
  | nil => exact fun _ _ => rfl
  | append_singleton front s ih =>
      intro rest hsplit
      rw [List.append_assoc, List.singleton_append] at hsplit
      have hnode : s.node < graph.nodes.length := hseen.node_lt s (hsplit ▸ by simp)
      have hname : graph.nodes[s.node]? = some (graph.nodes.getD s.node "") := by
        rw [List.getElem?_eq_getElem hnode, List.getElem_eq_getD ""]
      have hplace : g.nodeId? (addedName "O" s.round (graph.nodes.getD s.node "")) =
          some (graph.nodeCount + 4 * front.length + 3) := by
        unfold CausalGraph.nodeId? CausalGraph.nodeIn?
        rw [hg.nodes_eq, hsplit]
        exact position?_familyNames (hsplit ▸ hseen) rfl
      rw [List.filterMap_append, ih (s :: rest) hsplit, plannedFamilies_append, List.map_append]
      congr 1
      simp only [List.filterMap_cons, List.filterMap_nil, hname, Option.bind_some, hplace]
      rfl

theorem observed_nodup {nodes : List String} {first : Nat} {seen : List Sighting} :
    ((plannedFamilies (α := α) nodes first seen).map ReplicaFamily.observed).Nodup := by
  induction seen using List.reverseRecOn with
  | nil => exact List.nodup_nil
  | append_singleton seen s ih =>
      rw [plannedFamilies_append, List.map_append, List.nodup_append]
      refine ⟨ih, List.nodup_singleton _, ?_⟩
      intro earlier hearlier later hlater
      obtain ⟨f, hf, rfl⟩ := List.mem_map.mp hearlier
      obtain ⟨_, _, _, _, hlt⟩ := places_of_mem_plannedFamilies hf
      have hplace : later = first + 4 * seen.length + 3 := List.mem_singleton.mp hlater
      omega

/-! ## Growth along a run -/

omit [Scalar α] in
theorem appended_congr {other : CausalGraph α} (hnodes : g.nodes = other.nodes)
    (calls : List (LearnerCall × Workspace)) : g.appended calls = other.appended calls := by
  unfold CausalGraph.appended CausalGraph.batchOf CausalGraph.nodeId?
  rw [hnodes]

variable [Numeral α] {c : LearnerContext α}

/-- Whatever is asked, and whatever is appended as long as the batches can be counted in 32 bits,
growing succeeds with the graph that the history makes of the given one, the observed nodes are those
of the families, each of them once, and no count exceeds the number of batches. -/
theorem run_grows (hα : CountsInUnit α) (name : String) (hgraph : graph.Constructed)
    (hvalid : graph.validate = .ok ())
    (hnames : ∀ node ∈ graph.nodes, ¬ "_Dyna".toList <+: node.toList)
    (hrule : Scalar.inUnit c.ruleProbability = true) :
    ∃ start, Learner.new .differentiating name c graph = .ok start ∧
      ∀ calls : List (LearnerCall × Workspace),
        (graph.appended calls).length < Text.word32 → ∃ l g,
        start.run calls = .differentiating l ∧ l.differentiate = .ok g ∧
        GrownFrom c.ruleProbability graph (graph.appended calls) g ∧
        l.observationNodes g =
          (families (α := α) graph (graph.appended calls)).map ReplicaFamily.observed ∧
        (l.observationNodes g).Nodup ∧
        ∀ node, countOf l.counts node = tally (graph.appended calls).flatten node ∧
          (countOf l.counts node).trues ≤ (countOf l.counts node).total ∧
          (countOf l.counts node).total ≤ (graph.appended calls).length := by
  obtain ⟨base, hcanonical, hprimed⟩ := exists_canonicalGraph hα hgraph hrule
  have hnew : ∃ start, DifferentiatingLearner.new name c graph = .ok start :=
    ⟨_, bind_eq_ok_iff.mpr ⟨base, hcanonical, rfl⟩⟩
  obtain ⟨start, hstart⟩ := hnew
  have hlearner : Learner.new .differentiating name c graph = .ok (.differentiating start) := by
    unfold Learner.new
    rw [hstart]
    rfl
  refine ⟨_, hlearner, ?_⟩
  intro calls hcount
  have hreflects := (Learner.Reflects.new hlearner).run calls
  have hkind := Learner.kind_run (.differentiating start) calls
  cases hlast : Learner.run (.differentiating start) calls with
  | iterating _ | oneShot _ | fitting _ =>
      rw [hlast] at hkind
      cases hkind
  | differentiating l =>
      rw [hlast] at hreflects
      obtain ⟨same, hsame, hgrows⟩ := hreflects
      cases hcanonical.symm.trans hsame
      rw [List.nil_append, appended_congr hprimed.nodes_eq] at hgrows
      change Grows name c base (graph.appended calls) l at hgrows
      have hhistory := OneShotLearner.appended_observes graph calls
      have hdistinct : ∀ batch ∈ graph.appended calls, (batch.map Prod.fst).Nodup :=
        fun batch hbatch => (hhistory batch hbatch).distinct
      have hrule' : l.context.ruleProbability = c.ruleProbability := by
        rw [hgrows.context_eq]
      have hcounts : l.counts = (countAll (α := α) (graph.appended calls)).1 :=
        congrArg Prod.fst hgrows.counted
      have hrounds : l.rounds = (countAll (α := α) (graph.appended calls)).2 :=
        congrArg Prod.snd hgrows.counted
      obtain ⟨htally, _, hflat⟩ := flatRounds_countAll (α := α) hdistinct
      rw [← hgrows.graph_eq, ← hrule'] at hprimed
      obtain ⟨g, hg, hgrown⟩ := exists_differentiate hα hgraph hvalid hnames (hrule' ▸ hrule)
        hhistory hcount hprimed hrounds
      have hobserved := observationNodes_eq_map hgrown.grown
        (sighted_sightings hgraph hnames hhistory) hprimed.nodes_eq (hrounds ▸ hflat)
      refine ⟨l, g, rfl, hg, hrule' ▸ hgrown, hobserved, hobserved ▸ observed_nodup, ?_⟩
      intro node
      rw [hcounts, htally node]
      exact ⟨rfl, tally_trues_le _ node, tally_total_le hdistinct node⟩

/-! ## An alarm that grows -/

theorem countsInUnit_fractions : CountsInUnit ℚ where
  one_positive := by decide +kernel
  one_weighs := by decide +kernel
  one_finite := rfl
  compared := fun x y _ => ⟨decide_eq_true (le_refl x), decide_eq_true (le_refl y)⟩
  atMost_trans := fun _ _ _ hxy hyz =>
    decide_eq_true ((of_decide_eq_true hxy).trans (of_decide_eq_true hyz))
  atMost_of_not_less := fun _ _ _ _ hless =>
    decide_eq_true (not_lt.mp (of_decide_eq_false hless))
  epsilon_low := by decide +kernel
  epsilon_le := by decide +kernel
  epsilon_high := by decide +kernel
  quotient := fun _ _ _ _ _ => decide_eq_true (le_refl _)

open FactorGraph OneShotLearner

theorem smokeAlarm_constructed : CausalGraph.smokeAlarm.Constructed := by
  have hbuild : CausalGraph.build "alarm" ["smoke", "ring", "heard"] ["smoke"]
      [("heard", ["ring"])] [("ring", ["smoke"])] = .ok CausalGraph.smokeAlarm := rfl
  exact .build hbuild

/-- Seeing no smoke, and then none again and nobody hear the alarm, grows three families. -/
theorem smokeAlarm_grows :
    let calls : List (LearnerCall × Workspace) :=
      [(.append [("smoke", false)], quietWorkspace), (.query "heard", quietWorkspace),
        (.append [("smoke", false), ("heard", false)], quietWorkspace)]
    CausalGraph.smokeAlarm.validate = .ok () ∧
      (CausalGraph.smokeAlarm.appended calls).length < Text.word32 ∧
      (∀ node ∈ CausalGraph.smokeAlarm.nodes, ¬ "_Dyna".toList <+: node.toList) ∧
      Scalar.inUnit (streetContext 2).ruleProbability = true ∧
      ∃ start l g, Learner.new .differentiating "alarm" (streetContext 2) CausalGraph.smokeAlarm =
          .ok start ∧ start.run calls = .differentiating l ∧ l.differentiate = .ok g ∧
        g.nodes = ["smoke", "ring", "heard", "_DynaD1_smoke", "_DynaT1_smoke", "_DynaOCls1_smoke",
          "_DynaO1_smoke", "_DynaD2_smoke", "_DynaT2_smoke", "_DynaOCls2_smoke", "_DynaO2_smoke",
          "_DynaD2_heard", "_DynaT2_heard", "_DynaOCls2_heard", "_DynaO2_heard"] ∧
        g.prods = [(1, [8]), (3, [0]), (5, [0]), (7, [4]), (9, [4]), (11, [2]), (13, [2])] ∧
        l.observationNodes g = [6, 10, 14] := by
  intro calls
  have hvalid : CausalGraph.smokeAlarm.validate = .ok () := rfl
  have hnames : ∀ node ∈ CausalGraph.smokeAlarm.nodes, ¬ "_Dyna".toList <+: node.toList := by
    decide +kernel
  have hrule : Scalar.inUnit (streetContext 2).ruleProbability = true := by decide +kernel
  obtain ⟨start, hstart, hrun⟩ := run_grows countsInUnit_fractions "alarm" smokeAlarm_constructed
    hvalid hnames hrule
  have hcount : (CausalGraph.smokeAlarm.appended calls).length < Text.word32 := by
    decide +kernel
  obtain ⟨l, g, hl, hg, hgrown, hobserved, _, _⟩ := hrun calls hcount
  refine ⟨hvalid, hcount, hnames, hrule, start, l, g, hstart, hl, hg, ?_, ?_, ?_⟩
  · rw [hgrown.grown.nodes_eq]
    decide +kernel
  · rw [hgrown.grown.prods_eq]
    rfl
  · rw [hobserved]
    rfl

end DifferentiatingLearner

end DerivationBelief

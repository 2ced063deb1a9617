import DerivationBelief.Proofs.GraphBuilding
import DerivationBelief.Proofs.KeyedPriors
import DerivationBelief.Proofs.ProvenanceGraph
import Mathlib.Tactic

/-!
# Priors that are tied by keys

A clause or an input may come with a prior and a key.  Every clause and every input has a node of its
own, so the graph of a provenance has one distribution for each key, and two nodes share it exactly
when they were given the same key.
-/

namespace DerivationBelief.Provenance

variable {κ α : Type} [DecidableEq κ]

/-! ## What is given -/

variable {β : Type} {p : Provenance} {ofClause : GroundClause → Option β}
  {ofInput : GroundTuple → Option β}

/-- What is given for the clauses in order, and then for the inputs. -/
def given (p : Provenance) (ofClause : GroundClause → Option β)
    (ofInput : GroundTuple → Option β) : List β :=
  p.clauses.filterMap ofClause ++ p.inputs.filterMap ofInput

/-- The value was given for the clause or for the input that the node stands for. -/
inductive GivenTo (p : Provenance) (ofClause : GroundClause → Option β)
    (ofInput : GroundTuple → Option β) : String → β → Prop
  | clause {k : Nat} {c : GroundClause} {value : β} : p.clauses[k]? = some c →
      ofClause c = some value → GivenTo p ofClause ofInput (clauseNode k) value
  | input {k : Nat} {t : GroundTuple} {value : β} : p.inputs[k]? = some t →
      ofInput t = some value → GivenTo p ofClause ofInput (ProvenanceId.input k).text value

theorem givenTo_clauseNode {k : Nat} {c : GroundClause} (hc : p.clauses[k]? = some c) {value : β} :
    p.GivenTo ofClause ofInput (clauseNode k) value ↔ ofClause c = some value := by
  constructor
  · intro hgiven
    generalize hnode : clauseNode k = node at hgiven
    cases hgiven with
    | clause hother hvalue =>
        cases clauseNode_injective hnode
        cases hc.symm.trans hother
        exact hvalue
    | input _ _ => cases ProvenanceId.text_injective hnode
  · exact fun hvalue => .clause hc hvalue

theorem givenTo_input {k : Nat} {t : GroundTuple} (ht : p.inputs[k]? = some t) {value : β} :
    p.GivenTo ofClause ofInput (ProvenanceId.input k).text value ↔ ofInput t = some value := by
  constructor
  · intro hgiven
    generalize hnode : (ProvenanceId.input k).text = node at hgiven
    cases hgiven with
    | clause _ _ => cases ProvenanceId.text_injective hnode
    | input hother hvalue =>
        cases ProvenanceId.text_injective hnode
        cases ht.symm.trans hother
        exact hvalue
  · exact fun hvalue => .input ht hvalue

section Numbered

variable {ι : Type} {items : List ι} {value? : ι → Option β} {name : Nat → ProvenanceId}

theorem namedValues_snd :
    (namedValues name value? items).map Prod.snd = items.filterMap value? := by
  unfold namedValues
  rw [List.map_filterMap]
  have hvalue : ∀ entry : ι × Nat,
      ((value? entry.1).map (fun value => ((name entry.2).text, value))).map Prod.snd =
        value? entry.1 := by
    intro entry
    rw [Option.map_map]
    exact Option.map_id'
  simp only [hvalue]
  conv_rhs => rw [← List.zipIdx_map_fst 0 items, List.filterMap_map]
  rfl

theorem namedValues_nodup (hname : Function.Injective name) :
    ((namedValues name value? items).map Prod.fst).Nodup := by
  have hplaces : items.zipIdx.Pairwise (fun entry other => entry.2 ≠ other.2) := by
    rw [← List.pairwise_map, List.zipIdx_map_snd]
    exact List.nodup_range'
  unfold namedValues List.Nodup
  rw [List.pairwise_map, List.pairwise_filterMap]
  apply hplaces.imp
  intro entry other hne node hnode node' hnode'
  obtain ⟨_, _, rfl⟩ := Option.map_eq_some_iff.mp hnode
  obtain ⟨_, _, rfl⟩ := Option.map_eq_some_iff.mp hnode'
  intro hsame
  exact hne (hname (ProvenanceId.text_injective hsame))

end Numbered

theorem mem_annotated_iff {node : String} {value : β} :
    (node, value) ∈ p.annotated ofClause ofInput ↔ p.GivenTo ofClause ofInput node value := by
  rw [annotated_eq, List.mem_append, mem_namedValues, mem_namedValues]
  constructor
  · rintro (⟨k, c, hc, hvalue, rfl⟩ | ⟨k, t, ht, hvalue, rfl⟩)
    · exact .clause hc hvalue
    · exact .input ht hvalue
  · rintro (⟨hc, hvalue⟩ | ⟨ht, hvalue⟩)
    · exact Or.inl ⟨_, _, hc, hvalue, rfl⟩
    · exact Or.inr ⟨_, _, ht, hvalue, rfl⟩

theorem annotated_snd : (p.annotated ofClause ofInput).map Prod.snd = p.given ofClause ofInput := by
  rw [annotated_eq, List.map_append, namedValues_snd, namedValues_snd]
  rfl

/-- No node is given two values. -/
theorem annotated_names_nodup : ((p.annotated ofClause ofInput).map Prod.fst).Nodup := by
  rw [annotated_eq, List.map_append, List.nodup_append]
  refine ⟨namedValues_nodup (fun _ _ => ProvenanceId.clause.inj),
    namedValues_nodup (fun _ _ => ProvenanceId.input.inj), ?_⟩
  rintro node hclause other hinput rfl
  obtain ⟨⟨_, _⟩, hclauseEntry, rfl⟩ := List.mem_map.mp hclause
  obtain ⟨⟨_, _⟩, hinputEntry, hsame⟩ := List.mem_map.mp hinput
  obtain ⟨j, _, _, _, hj⟩ := mem_namedValues.mp hclauseEntry
  obtain ⟨k, _, _, _, hk⟩ := mem_namedValues.mp hinputEntry
  cases ProvenanceId.text_injective (hk.symm.trans (hsame.trans hj))

theorem annotated_map {γ : Type} (rename : β → γ) :
    p.annotated (fun c => (ofClause c).map rename) (fun t => (ofInput t).map rename) =
      (p.annotated ofClause ofInput).map (fun entry => (entry.1, rename entry.2)) := by
  simp only [annotated, List.map_append, List.map_filterMap, Option.map_map]
  rfl

/-! ## The tied graph -/

section Tied

variable {clauseTied : GroundClause → Option (κ × Distribution α)}
  {inputTied : GroundTuple → Option (κ × Distribution α)}

/-- The keys that are given, each at its first arrival. -/
def keysGiven (p : Provenance) (clauseTied : GroundClause → Option (κ × Distribution α))
    (inputTied : GroundTuple → Option (κ × Distribution α)) : List κ :=
  ((p.given clauseTied inputTied).map Prod.fst).eraseDups

/-- The distributions of a graph stand for the keys that were given, in order of their first
arrivals.  Each is the one that came with its key first, and the clauses and the inputs with the key
refer to it.  No other node refers to a distribution. -/
structure TiedByKeys (p : Provenance) (clauseTied : GroundClause → Option (κ × Distribution α))
    (inputTied : GroundTuple → Option (κ × Distribution α)) (g : CausalGraph α) : Prop where
  dists : g.dists.map some = (p.keysGiven clauseTied inputTied).map (fun key =>
    ((p.given clauseTied inputTied).find? (fun entry => entry.1 = key)).map Prod.snd)
  distCount : g.distCount = ((p.given clauseTied inputTied).map Prod.fst).toFinset.card
  clause : ∀ k c, p.clauses[k]? = some c → ∃ id, g.nodeId? (clauseNode k) = some id ∧
    g.distOf? id = (clauseTied c).map (fun entry => (p.keysGiven clauseTied inputTied).idxOf entry.1)
  input : ∀ k t, p.inputs[k]? = some t → ∃ id, g.nodeId? (ProvenanceId.input k).text = some id ∧
    g.distOf? id = (inputTied t).map (fun entry => (p.keysGiven clauseTied inputTied).idxOf entry.1)
  shared : ∀ node id key d other otherId otherKey otherDist,
    p.GivenTo clauseTied inputTied node (key, d) → g.nodeId? node = some id →
    p.GivenTo clauseTied inputTied other (otherKey, otherDist) → g.nodeId? other = some otherId →
      (g.distOf? id = g.distOf? otherId ↔ key = otherKey)
  untied : ∀ node id, g.nodeId? node = some id →
    (∀ entry, ¬ p.GivenTo clauseTied inputTied node entry) → g.distOf? id = none

/-- A graph without priors that knows the nodes of all clauses and of all inputs. -/
structure Bare (p : Provenance) (g : CausalGraph α) : Prop where
  dists_eq : g.dists = []
  stochastic_eq : g.stochastic = []
  clause_mem : ∀ k c, p.clauses[k]? = some c → clauseNode k ∈ g.nodes
  inputs_subset : p.inputIds ⊆ g.nodes

/-- A graph of a provenance is built without priors and then given them. -/
theorem graphWith_inversion {table : PriorTable α} {g : CausalGraph α}
    (hg : p.graphWith table = .ok g) :
    ∃ built : CausalGraph α, g = built.applyPriors table ∧ p.Bare built := by
  obtain ⟨built, hbuilt, hpriors⟩ := bind_eq_ok_iff.mp hg
  cases hpriors
  have hnodes : p.graphNodes.Nodup := Arrival.distinct_nodup _
  obtain ⟨hdescribed, rfl⟩ := (CausalGraph.build_eq_ok_iff hnodes).mp hbuilt
  refine ⟨_, rfl, rfl, rfl, fun k c hc => clauseNode_mem_graphNodes hc, ?_⟩
  intro node hnode
  exact hdescribed.singletons_subset (List.mem_append_left _ hnode)

section Bare

variable {g : CausalGraph α} (hg : p.Bare g)

include hg

theorem Bare.input_mem {k : Nat} {t : GroundTuple} (ht : p.inputs[k]? = some t) :
    (ProvenanceId.input k).text ∈ g.nodes :=
  hg.inputs_subset (mem_inputIds.mpr ⟨k, (List.getElem?_eq_some_iff.mp ht).1, rfl⟩)

theorem Bare.annotated_known :
    ∀ entry ∈ p.annotated ofClause ofInput, entry.1 ∈ g.nodes := by
  rintro ⟨node, value⟩ hentry
  cases mem_annotated_iff.mp hentry with
  | clause hc _ => exact hg.clause_mem _ _ hc
  | input ht _ => exact hg.input_mem ht

end Bare

theorem keysOf_annotated :
    PriorTable.keysOf (p.annotated clauseTied inputTied) = p.keysGiven clauseTied inputTied := by
  unfold PriorTable.keysOf keysGiven
  rw [← annotated_snd, List.map_map]
  rfl

theorem mem_keysGiven {node : String} {key : κ} {d : Distribution α}
    (hvalue : p.GivenTo clauseTied inputTied node (key, d)) :
    key ∈ p.keysGiven clauseTied inputTied := by
  rw [← keysOf_annotated, PriorTable.mem_keysOf]
  exact ⟨_, mem_annotated_iff.mpr hvalue, rfl⟩

section Tracked

variable {s : PriorTable.Keyed κ α} {g : CausalGraph α}
  (hs : s.Tracks (p.annotated clauseTied inputTied)) (hg : p.Bare g)

include hs hg

theorem Bare.dists_tied : (g.applyPriors s.table).dists.map some =
    (p.keysGiven clauseTied inputTied).map (fun key =>
      ((p.given clauseTied inputTied).find? (fun entry => entry.1 = key)).map Prod.snd) := by
  rw [hs.dists_eq hg.annotated_known hg.dists_eq, hs.dists, keysOf_annotated, annotated_snd]
  exact List.map_congr_left (fun key _ => Arrival.get?_eq_find? _ key)

theorem Bare.distCount_tied : (g.applyPriors s.table).distCount =
    ((p.given clauseTied inputTied).map Prod.fst).toFinset.card := by
  have hlength := congrArg List.length (hg.dists_tied hs)
  rw [List.length_map, List.length_map] at hlength
  rw [CausalGraph.distCount, hlength, keysGiven,
    ← List.toFinset_card_of_nodup (Arrival.eraseDups_nodup _)]
  congr 1
  ext key
  rw [List.mem_toFinset, List.mem_toFinset, List.mem_eraseDups]

variable {node : String} {id : Nat} (hid : g.nodeId? node = some id)

include hid

theorem Bare.distOf?_given {key : κ} {d : Distribution α}
    (hvalue : p.GivenTo clauseTied inputTied node (key, d)) :
    (g.applyPriors s.table).distOf? id =
      some ((p.keysGiven clauseTied inputTied).idxOf key) := by
  rw [hs.distOf?_eq hg.annotated_known hg.dists_eq annotated_names_nodup
    (mem_annotated_iff.mpr hvalue) hid, keysOf_annotated]

theorem Bare.distOf?_ungiven (hnone : ∀ entry, ¬ p.GivenTo clauseTied inputTied node entry) :
    (g.applyPriors s.table).distOf? id = none := by
  rw [g.distOf?_applyPriors_of_unnamed hs.assembled.wellFormed, CausalGraph.distOf?,
    hg.stochastic_eq]
  · rfl
  · intro other hother hmem
    rw [hs.names_eq] at hmem
    obtain ⟨⟨_, value⟩, hentry, rfl⟩ := List.mem_map.mp hmem
    cases CausalGraph.nodeId?_injective hid hother
    exact hnone value (mem_annotated_iff.mp hentry)

theorem Bare.distOf?_tied {value? : Option (κ × Distribution α)}
    (hvalue : ∀ entry, p.GivenTo clauseTied inputTied node entry ↔ value? = some entry) :
    (g.applyPriors s.table).distOf? id =
      value?.map (fun entry => (p.keysGiven clauseTied inputTied).idxOf entry.1) := by
  cases value? with
  | none =>
      apply hg.distOf?_ungiven hs hid
      intro entry hentry
      cases (hvalue entry).mp hentry
  | some entry => exact hg.distOf?_given hs hid ((hvalue entry).mpr rfl)

end Tracked

/-- Whatever the keys are, a graph that is built with them has one distribution for each, the first
that came with it, in the order in which the keys arrive, and exactly the clauses and inputs with the
same key share it.  With different keys throughout it is the graph of independent priors. -/
theorem tied_exactly_by_keys (p : Provenance)
    (clauseTied : GroundClause → Option (κ × Distribution α))
    (inputTied : GroundTuple → Option (κ × Distribution α)) :
    (∀ g, p.tiedCausalGraph clauseTied inputTied = .ok g → p.TiedByKeys clauseTied inputTied g) ∧
      (((p.given clauseTied inputTied).map Prod.fst).Nodup →
        p.tiedCausalGraph clauseTied inputTied =
          p.causalGraph (fun c => (clauseTied c).map Prod.snd)
            (fun t => (inputTied t).map Prod.snd)) := by
  constructor
  · intro g hg
    obtain ⟨table, htable, hg⟩ := bind_eq_ok_iff.mp hg
    obtain ⟨s, rfl, hs⟩ := PriorTable.ofKeyed_tracks htable
    obtain ⟨built, rfl, hbuilt⟩ := graphWith_inversion hg
    have hid : ∀ node, (built.applyPriors s.table).nodeId? node = built.nodeId? node := by
      intro node
      have hshape := congrArg CausalGraph.nodes (built.applyPriors_spec hs.assembled.wellFormed).1
      exact congrArg (fun nodes => CausalGraph.nodeIn? nodes node) hshape
    constructor
    case dists => exact hbuilt.dists_tied hs
    case distCount => exact hbuilt.distCount_tied hs
    case clause =>
      intro k c hc
      have hnode := CausalGraph.nodeId?_eq_some_iff.mpr ⟨hbuilt.clause_mem k c hc, rfl⟩
      exact ⟨_, (hid _).trans hnode,
        hbuilt.distOf?_tied hs hnode (fun _ => givenTo_clauseNode hc)⟩
    case input =>
      intro k t ht
      have hnode := CausalGraph.nodeId?_eq_some_iff.mpr ⟨hbuilt.input_mem ht, rfl⟩
      exact ⟨_, (hid _).trans hnode, hbuilt.distOf?_tied hs hnode (fun _ => givenTo_input ht)⟩
    case shared =>
      intro node id key d other otherId otherKey otherDist hvalue hnode hotherValue hother
      rw [hid] at hnode hother
      rw [hbuilt.distOf?_given hs hnode hvalue, hbuilt.distOf?_given hs hother hotherValue,
        Option.some_inj]
      exact List.idxOf_inj (mem_keysGiven hvalue)
    case untied =>
      intro node id hnode hnone
      rw [hid] at hnode
      exact hbuilt.distOf?_ungiven hs hnode hnone
  · intro hkeys
    have hannotated : ((p.annotated clauseTied inputTied).map (fun entry => entry.2.1)).Nodup := by
      rw [← annotated_snd, List.map_map] at hkeys
      exact hkeys
    unfold tiedCausalGraph causalGraph
    rw [PriorTable.ofKeyed_of_nodup hannotated, annotated_map]
    rfl

end Tied

/-! ## A street with tied rules -/

def onDay (relation : String) : GroundTuple := ⟨relation, [0]⟩

def tiedStreet : Provenance :=
  { name := "street"
    clauses := [.positive 1 (onDay "wet") [onDay "rain"], .positive 2 (onDay "slip") [onDay "wet"],
      .positive 1 (onDay "slip") [onDay "rain", onDay "wet"],
      .positive 0 (onDay "slip") [onDay "rain"]]
    inputs := [onDay "rain"]
    outputs := [onDay "slip"]
    hidden := [onDay "wet"]
    tupleIds := [(onDay "rain", .input 0), (onDay "slip", .output 0), (onDay "wet", .hidden 0)]
    rules := [] }

def oneIn (cases : Nat) : Distribution ℚ := ⟨[1 / cases], [1]⟩

/-- The clauses of a rule share the prior of the first one; the last rule is certain. -/
def byRule (c : GroundClause) : Option (UInt32 × Distribution ℚ) :=
  if c.rule = 0 then none else some (c.rule, oneIn (c.rule.toNat + c.body.length))

theorem tiedStreet_tied :
    (∃ g, tiedStreet.tiedCausalGraph byRule (fun _ => some (2, oneIn 9)) = .ok g ∧
      tiedStreet.TiedByKeys byRule (fun _ => some (2, oneIn 9)) g ∧
      g.nodes = ["D0", "H0", "I0", "D1", "O0", "D2", "D3"] ∧ g.dists = [oneIn 2, oneIn 3] ∧
      g.stochastic = [(0, 0), (3, 1), (5, 0), (2, 1)]) ∧
    ((tiedStreet.given (fun c => some (c, oneIn 2)) (fun _ => none)).map Prod.fst).Nodup ∧
      tiedStreet.tiedCausalGraph (fun c => some (c, oneIn 2)) (fun _ => none) =
        tiedStreet.causalGraph (fun _ => some (oneIn 2)) (fun _ => none) := by
  have hkeys : ((tiedStreet.given (fun c => some (c, oneIn 2)) (fun _ => none)).map
      Prod.fst).Nodup := by decide
  exact ⟨⟨_, rfl, (tied_exactly_by_keys tiedStreet byRule _).1 _ rfl, rfl, rfl, rfl⟩, hkeys,
    (tied_exactly_by_keys tiedStreet _ _).2 hkeys⟩

end DerivationBelief.Provenance

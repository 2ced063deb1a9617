import DerivationBelief.ProvenanceGraph
import DerivationBelief.Proofs.NamedGraph
import DerivationBelief.Proofs.PriorTable
import DerivationBelief.Proofs.Provenance
import Mathlib.Tactic

/-!
# The graph of a provenance

The nodes of the graph are the identifiers of the clauses and of their tuples.  A clause is a product,
a derived tuple a sum, an input and every other tuple a singleton.  All names resolve, so the graph
is built unless an input is also derived; the node of such a tuple would have two roles.
-/

namespace DerivationBelief.Provenance

variable {α : Type} {p : Provenance}

/-! ## Names -/

def clauseNode (k : Nat) : String :=
  (ProvenanceId.clause k).text

def tupleNode? (p : Provenance) (t : GroundTuple) : Option String :=
  (p.tupleId? t).map ProvenanceId.text

/-- The clauses that derive a tuple, in order. -/
def clausesOf (p : Provenance) (t : GroundTuple) : List String :=
  (p.clauses.zipIdx.filter (fun entry => entry.1.head = t)).map (fun entry => clauseNode entry.2)

/-- The different tuples of a body, in order of first mention. -/
def bodyOf (p : Provenance) (c : GroundClause) : List String :=
  Arrival.distinct (c.bodyTuples.filterMap p.tupleNode?)

theorem tupleNode?_eq_some_iff {t : GroundTuple} {node : String} :
    p.tupleNode? t = some node ↔ ∃ id, p.tupleId? t = some id ∧ node = id.text := by
  simp [tupleNode?, eq_comm]

theorem clauseNode_injective : Function.Injective clauseNode := by
  intro j k hsame
  exact ProvenanceId.clause.inj (ProvenanceId.text_injective hsame)

namespace Numbered

theorem tupleNode?_injective (hp : p.Numbered) {s t : GroundTuple} {node : String}
    (hs : p.tupleNode? s = some node) (ht : p.tupleNode? t = some node) : s = t := by
  obtain ⟨id, hid, rfl⟩ := tupleNode?_eq_some_iff.mp hs
  obtain ⟨other, hother, hsame⟩ := tupleNode?_eq_some_iff.mp ht
  cases ProvenanceId.text_injective hsame
  exact hp.tupleId?_injective hid hother

theorem exists_tupleNode (hp : p.Numbered) {t : GroundTuple}
    (ht : t ∈ ClauseIndex.mentioned p.clauses) : ∃ node, p.tupleNode? t = some node := by
  obtain ⟨id, hid⟩ := hp.exists_tupleId ht
  exact ⟨id.text, tupleNode?_eq_some_iff.mpr ⟨id, hid, rfl⟩⟩

theorem tupleNode?_ne_clauseNode (hp : p.Numbered) {t : GroundTuple} {node : String}
    (ht : p.tupleNode? t = some node) (k : Nat) : node ≠ clauseNode k := by
  obtain ⟨id, hid, rfl⟩ := tupleNode?_eq_some_iff.mp ht
  intro hsame
  cases ProvenanceId.text_injective hsame
  exact absurd (hp.tupleId?_eq_some_iff.mp hid) (by simp [tupleOf?])

theorem mem_mentioned_of_tupleNode? (hp : p.Numbered) {t : GroundTuple} {node : String}
    (ht : p.tupleNode? t = some node) : t ∈ ClauseIndex.mentioned p.clauses := by
  obtain ⟨id, hid, _⟩ := tupleNode?_eq_some_iff.mp ht
  exact hp.mem_mentioned_of_tupleId? hid

end Numbered

theorem Derives.mem_mentioned {t : GroundTuple} (ht : p.Derives t) :
    t ∈ ClauseIndex.mentioned p.clauses := by
  obtain ⟨c, hc, rfl⟩ := ht
  exact ClauseIndex.mem_mentioned.mpr ⟨c, hc, Or.inl rfl⟩

/-! ## Nodes -/

theorem mem_graphNodes {node : String} :
    node ∈ p.graphNodes ↔ (∃ k < p.clauses.length, node = clauseNode k) ∨
      ∃ t ∈ ClauseIndex.mentioned p.clauses, p.tupleNode? t = some node := by
  simp only [graphNodes, Arrival.mem_distinct, List.mem_flatMap, List.mem_cons,
    List.mem_filterMap, ClauseIndex.mem_mentioned]
  constructor
  · rintro ⟨⟨c, k⟩, hentry, rfl | ⟨t, ht, hnode⟩⟩
    · left
      exact ⟨k, List.snd_lt_of_mem_zipIdx hentry, rfl⟩
    · right
      exact ⟨t, ⟨c, List.fst_mem_of_mem_zipIdx hentry, ht⟩, hnode⟩
  · rintro (⟨k, hk, rfl⟩ | ⟨t, ⟨c, hc, ht⟩, hnode⟩)
    · exact ⟨(p.clauses[k], k), List.mem_zipIdx_iff_getElem?.mpr (List.getElem?_eq_getElem hk),
        Or.inl rfl⟩
    · obtain ⟨k, hk⟩ := List.mem_iff_getElem?.mp hc
      exact ⟨(c, k), List.mem_zipIdx_iff_getElem?.mpr hk, Or.inr ⟨t, ht, hnode⟩⟩

theorem mem_inputIds {node : String} :
    node ∈ p.inputIds ↔ ∃ k < p.inputs.length, node = (ProvenanceId.input k).text := by
  simp [inputIds, idsBelow, eq_comm]

theorem Numbered.mem_inputIds_iff (hp : p.Numbered) {t : GroundTuple} {node : String}
    (ht : p.tupleNode? t = some node) : node ∈ p.inputIds ↔ t ∈ p.inputs := by
  obtain ⟨id, hid, rfl⟩ := tupleNode?_eq_some_iff.mp ht
  rw [mem_inputIds, hp.tupleId?_input_iff hid]
  constructor
  · rintro ⟨k, _, hsame⟩
    exact ⟨k, ProvenanceId.text_injective hsame⟩
  · rintro ⟨k, rfl⟩
    exact ⟨k, (List.getElem?_eq_some_iff.mp (hp.tupleId?_eq_some_iff.mp hid)).1, rfl⟩

theorem Numbered.tupleNode?_input (hp : p.Numbered) {k : Nat} (hk : k < p.inputs.length) :
    p.tupleNode? p.inputs[k] = some (ProvenanceId.input k).text := by
  rw [tupleNode?_eq_some_iff]
  exact ⟨.input k, hp.tupleId?_eq_some_iff.mpr (List.getElem?_eq_getElem hk), rfl⟩

/-! ## Derived tuples -/

/-- The clauses with the nodes of their heads. -/
def derivations (p : Provenance) : List (String × String) :=
  p.clauses.zipIdx.filterMap (fun entry =>
    (p.tupleNode? entry.1.head).map (fun head => (head, clauseNode entry.2)))

theorem headToClauses_eq (p : Provenance) :
    p.headToClauses =
      p.derivations.foldl (fun table entry => Arrival.append table entry.1 entry.2) [] := by
  unfold headToClauses derivations
  rw [List.foldl_filterMap]
  congr 1
  funext table entry
  cases hid : p.tupleId? entry.1.head <;> simp [tupleNode?, hid, clauseNode]

theorem mem_derivations {head clause : String} :
    (head, clause) ∈ p.derivations ↔
      ∃ k c, p.clauses[k]? = some c ∧ p.tupleNode? c.head = some head ∧ clause = clauseNode k := by
  simp only [derivations, List.mem_filterMap, Option.map_eq_some_iff, Prod.exists, Prod.mk.injEq,
    List.mem_zipIdx_iff_getElem?]
  constructor
  · rintro ⟨c, k, hc, head, hhead, rfl, rfl⟩
    exact ⟨k, c, hc, hhead, rfl⟩
  · rintro ⟨k, c, hc, hhead, rfl⟩
    exact ⟨c, k, hc, head, hhead, rfl, rfl⟩

theorem headToClauses_keys_nodup (p : Provenance) :
    (p.headToClauses.map Prod.fst).Nodup := by
  rw [headToClauses_eq, Arrival.keys_foldl_append]
  exact Arrival.insertAll_nodup List.nodup_nil _

theorem mem_headToClauses_keys {node : String} :
    node ∈ p.headToClauses.map Prod.fst ↔ ∃ t, p.Derives t ∧ p.tupleNode? t = some node := by
  rw [headToClauses_eq, Arrival.keys_foldl_append]
  simp only [List.map_nil, Arrival.mem_insertAll, List.not_mem_nil, false_or, List.mem_map,
    Prod.exists, exists_and_right, exists_eq_right, mem_derivations]
  constructor
  · rintro ⟨_, k, c, hc, hhead, _⟩
    exact ⟨c.head, ⟨c, List.mem_of_getElem? hc, rfl⟩, hhead⟩
  · rintro ⟨_, ⟨c, hc, rfl⟩, hhead⟩
    obtain ⟨k, hk⟩ := List.mem_iff_getElem?.mp hc
    exact ⟨clauseNode k, k, c, hk, hhead, rfl⟩

theorem snd_of_mem_headToClauses {node : String} {clauses : List String}
    (hmem : (node, clauses) ∈ p.headToClauses) :
    clauses = Arrival.valuesOf p.derivations node := by
  have hget := (Arrival.get?_eq_some_iff p.headToClauses_keys_nodup).mpr hmem
  have hvalues := Arrival.getD_foldl_append p.derivations [] node
  rw [← headToClauses_eq, hget] at hvalues
  exact hvalues

theorem Numbered.valuesOf_derivations (hp : p.Numbered) {t : GroundTuple} {node : String}
    (ht : p.tupleNode? t = some node) :
    Arrival.valuesOf p.derivations node = p.clausesOf t := by
  have hsame : ∀ entry : GroundClause × Nat,
      ((p.tupleNode? entry.1.head).map (fun head => (head, clauseNode entry.2))).bind
          (fun e => if e.1 = node then some e.2 else none) =
        if entry.1.head = t then some (clauseNode entry.2) else none := by
    intro entry
    by_cases hhead : entry.1.head = t
    · rw [hhead, ht]
      simp
    · rw [if_neg hhead]
      cases hother : p.tupleNode? entry.1.head with
      | none => rfl
      | some other =>
          have hne : other ≠ node := by
            rintro rfl
            exact hhead (hp.tupleNode?_injective hother ht)
          simp [hne]
  have hvalues : ∀ entries : List (String × String), Arrival.valuesOf entries node =
      entries.filterMap (fun e => if e.1 = node then some e.2 else none) := by
    intro entries
    unfold Arrival.valuesOf
    rw [← List.filterMap_eq_filter, List.map_filterMap]
    apply List.filterMap_congr
    intro e _
    by_cases he : e.1 = node <;> simp [Option.guard, he]
  have hclauses : p.clausesOf t = p.clauses.zipIdx.filterMap
      (fun entry => if entry.1.head = t then some (clauseNode entry.2) else none) := by
    unfold clausesOf
    rw [← List.filterMap_eq_filter, List.map_filterMap]
    apply List.filterMap_congr
    intro entry _
    by_cases hhead : entry.1.head = t <;> simp [Option.guard, hhead]
  rw [hvalues, hclauses, derivations, List.filterMap_filterMap]
  exact List.filterMap_congr (fun entry _ => hsame entry)

/-- The table of heads lists each derived tuple with the clauses that derive it. -/
theorem Numbered.mem_headToClauses (hp : p.Numbered) {node : String} {clauses : List String} :
    (node, clauses) ∈ p.headToClauses ↔
      ∃ t, p.Derives t ∧ p.tupleNode? t = some node ∧ clauses = p.clausesOf t := by
  constructor
  · intro hmem
    obtain ⟨t, hderives, ht⟩ := mem_headToClauses_keys.mp (List.mem_map_of_mem hmem)
    exact ⟨t, hderives, ht, (snd_of_mem_headToClauses hmem).trans (hp.valuesOf_derivations ht)⟩
  · rintro ⟨t, hderives, ht, rfl⟩
    obtain ⟨⟨key, listed⟩, hmem, rfl⟩ :=
      List.mem_map.mp (mem_headToClauses_keys.mpr ⟨t, hderives, ht⟩)
    have hlisted : listed = p.clausesOf t :=
      (snd_of_mem_headToClauses hmem).trans (hp.valuesOf_derivations ht)
    rwa [hlisted] at hmem

theorem mem_clausesOf {t : GroundTuple} {clause : String} :
    clause ∈ p.clausesOf t ↔
      ∃ k c, p.clauses[k]? = some c ∧ c.head = t ∧ clause = clauseNode k := by
  simp only [clausesOf, List.mem_map, List.mem_filter, List.mem_zipIdx_iff_getElem?,
    decide_eq_true_iff, Prod.exists]
  constructor
  · rintro ⟨c, k, ⟨hc, hhead⟩, rfl⟩
    exact ⟨k, c, hc, hhead, rfl⟩
  · rintro ⟨k, c, hc, hhead, rfl⟩
    exact ⟨c, k, ⟨hc, hhead⟩, rfl⟩

/-! ## Names resolve -/

theorem Numbered.singletons_subset (hp : p.Numbered) : p.graphSingletons ⊆ p.graphNodes := by
  intro node hnode
  unfold graphSingletons at hnode
  rcases List.mem_append.mp hnode with hinput | hother
  · obtain ⟨k, hk, rfl⟩ := mem_inputIds.mp hinput
    rw [mem_graphNodes]
    right
    refine ⟨p.inputs[k], (hp.mem_parts _).mp ?_, hp.tupleNode?_input hk⟩
    exact List.mem_append_left _ (List.getElem_mem hk)
  · exact (List.mem_filter.mp hother).1

theorem clauseNode_mem_graphNodes {k : Nat} {c : GroundClause} (hc : p.clauses[k]? = some c) :
    clauseNode k ∈ p.graphNodes :=
  mem_graphNodes.mpr (Or.inl ⟨k, (List.getElem?_eq_some_iff.mp hc).1, rfl⟩)

theorem Numbered.sums_resolvable (hp : p.Numbered) :
    CausalGraph.Resolvable p.graphNodes p.headToClauses := by
  have hentry : ∀ d ∈ p.headToClauses, ∃ t, p.Derives t ∧ p.tupleNode? t = some d.1 ∧
      d.2 = p.clausesOf t := fun _ hd => hp.mem_headToClauses.mp hd
  refine ⟨p.headToClauses_keys_nodup, ?_, ?_, ?_⟩
  · intro d hd
    obtain ⟨t, ht, hnode, _⟩ := hentry d hd
    exact mem_graphNodes.mpr (Or.inr ⟨t, ht.mem_mentioned, hnode⟩)
  · intro d hd
    obtain ⟨t, _, _, hbody⟩ := hentry d hd
    rw [hbody]
    intro clause hclause
    obtain ⟨k, c, hc, _, rfl⟩ := mem_clausesOf.mp hclause
    exact clauseNode_mem_graphNodes hc
  · intro d hd
    obtain ⟨t, _, hnode, hbody⟩ := hentry d hd
    rw [hbody]
    intro hself
    obtain ⟨k, _, _, _, hsame⟩ := mem_clausesOf.mp hself
    exact hp.tupleNode?_ne_clauseNode hnode k hsame

theorem mem_clauseToBody {node : String} {body : List String} :
    (node, body) ∈ p.clauseToBody ↔ ∃ k c, p.clauses[k]? = some c ∧ node = clauseNode k ∧
      body = c.bodyTuples.filterMap p.tupleNode? := by
  simp only [clauseToBody, List.mem_map, Prod.exists, Prod.mk.injEq, List.mem_zipIdx_iff_getElem?]
  constructor
  · rintro ⟨c, k, hc, rfl, rfl⟩
    exact ⟨k, c, hc, rfl, rfl⟩
  · rintro ⟨k, c, hc, rfl, rfl⟩
    exact ⟨c, k, hc, rfl, rfl⟩

theorem mem_clauseToBody_keys {node : String} :
    node ∈ p.clauseToBody.map Prod.fst ↔ ∃ k < p.clauses.length, node = clauseNode k := by
  rw [List.mem_map]
  constructor
  · rintro ⟨⟨clause, body⟩, hd, rfl⟩
    obtain ⟨k, c, hc, rfl, _⟩ := mem_clauseToBody.mp hd
    exact ⟨k, (List.getElem?_eq_some_iff.mp hc).1, rfl⟩
  · rintro ⟨k, hk, rfl⟩
    exact ⟨_, mem_clauseToBody.mpr ⟨k, p.clauses[k], List.getElem?_eq_getElem hk, rfl, rfl⟩, rfl⟩

theorem Numbered.prods_resolvable (hp : p.Numbered) :
    CausalGraph.Resolvable p.graphNodes p.clauseToBody := by
  refine ⟨?_, ?_, ?_, ?_⟩
  · have hkeys : p.clauseToBody.map Prod.fst =
        (p.clauses.zipIdx.map Prod.snd).map clauseNode := by
      rw [clauseToBody, List.map_map, List.map_map]
      rfl
    rw [hkeys, List.zipIdx_map_snd]
    exact List.Nodup.map clauseNode_injective List.nodup_range'
  · intro d hd
    obtain ⟨k, c, hc, hnode, _⟩ := mem_clauseToBody.mp hd
    rw [hnode]
    exact clauseNode_mem_graphNodes hc
  · intro d hd
    obtain ⟨k, c, hc, _, hbody⟩ := mem_clauseToBody.mp hd
    rw [hbody]
    intro sub hsub
    obtain ⟨t, ht, hnode⟩ := List.mem_filterMap.mp hsub
    exact mem_graphNodes.mpr (Or.inr ⟨t, ClauseIndex.body_subset_mentioned hc ht, hnode⟩)
  · intro d hd
    obtain ⟨k, c, hc, hnode, hbody⟩ := mem_clauseToBody.mp hd
    rw [hbody, hnode]
    intro hself
    obtain ⟨t, _, ht⟩ := List.mem_filterMap.mp hself
    exact hp.tupleNode?_ne_clauseNode ht k rfl

/-- The graph of a provenance before priors are given. -/
def skeleton (α : Type) (p : Provenance) : CausalGraph α :=
  CausalGraph.ofNames p.name p.graphNodes p.graphSingletons p.headToClauses p.clauseToBody

/-- Only the roles of the nodes decide whether the graph is built. -/
theorem Numbered.graphWith_eq (hp : p.Numbered) (table : PriorTable α) :
    p.graphWith table = (do
      (p.skeleton α).validate
      return (p.skeleton α).applyPriors table) := by
  have hnodes : p.graphNodes.Nodup := Arrival.distinct_nodup _
  unfold graphWith CausalGraph.buildWithPriors
  rw [CausalGraph.build_of_resolvable p.name hnodes hp.singletons_subset hp.sums_resolvable
    hp.prods_resolvable]
  change (do
    let g ← (do
      (p.skeleton α).validate
      return p.skeleton α)
    return CausalGraph.applyPriors g table) = _
  cases (p.skeleton α).validate <;> rfl

/-! ## Roles -/

theorem mayBeDerived_clauseNode (k : Nat) : mayBeDerived (clauseNode k) = false := by
  have hread : ProvenanceId.readChars? (clauseNode k).toList =
      ((Text.readDigits? (Text.natDigits k)).filter (· < Text.word64)).bind
        (fun number => some (ProvenanceId.clause number)) := by
    unfold clauseNode ProvenanceId.text
    rw [String.toList_ofList]
    rfl
  unfold mayBeDerived
  rw [hread]
  cases (Text.readDigits? (Text.natDigits k)).filter (· < Text.word64) <;> rfl

theorem clauseNode_not_singleton (k : Nat) : clauseNode k ∉ p.graphSingletons := by
  unfold graphSingletons
  rw [List.mem_append, List.mem_filter, not_or]
  constructor
  · intro hinput
    obtain ⟨j, _, hsame⟩ := mem_inputIds.mp hinput
    cases ProvenanceId.text_injective hsame
  · simp [mayBeDerived_clauseNode]

section Roles

variable (hp : p.Numbered)

include hp

theorem Numbered.mayBeDerived_iff (hsize : p.tupleIds.length ≤ Text.word64) {t : GroundTuple}
    {node : String} (ht : p.tupleNode? t = some node) :
    mayBeDerived node = true ↔ t ∉ p.inputs := by
  obtain ⟨id, hid, rfl⟩ := tupleNode?_eq_some_iff.mp ht
  have hinput := hp.tupleId?_input_iff hid
  have htuple := hp.tupleId?_eq_some_iff.mp hid
  unfold mayBeDerived
  rw [ProvenanceId.readChars?_text ((hp.number_lt hid).trans_le hsize), hinput]
  cases id <;> simp_all [tupleOf?]

/-- A tuple is a singleton when it is an input or when no clause derives it. -/
theorem Numbered.mem_graphSingletons (hsize : p.tupleIds.length ≤ Text.word64) {t : GroundTuple}
    {node : String} (ht : p.tupleNode? t = some node) :
    node ∈ p.graphSingletons ↔ t ∈ p.inputs ∨ ¬ p.Derives t := by
  have hmem : node ∈ p.graphNodes :=
    mem_graphNodes.mpr (Or.inr ⟨t, hp.mem_mentioned_of_tupleNode? ht, ht⟩)
  have hkey : Arrival.hasKey p.headToClauses node = true ↔ p.Derives t := by
    rw [Arrival.hasKey_iff, mem_headToClauses_keys]
    constructor
    · rintro ⟨s, hs, hnode⟩
      exact hp.tupleNode?_injective hnode ht ▸ hs
    · intro hderives
      exact ⟨t, hderives, ht⟩
  unfold graphSingletons
  rw [List.mem_append, hp.mem_inputIds_iff ht, List.mem_filter, Bool.and_eq_true,
    hp.mayBeDerived_iff hsize ht, Bool.not_eq_true', Bool.eq_false_iff, Ne, hkey]
  tauto

theorem Numbered.roleCount_clauseNode {k : Nat} (hk : k < p.clauses.length) :
    (p.skeleton α).roleCount (p.graphNodes.idxOf (clauseNode k)) = 1 := by
  have hsum : clauseNode k ∉ p.headToClauses.map Prod.fst := by
    intro hmem
    obtain ⟨t, _, ht⟩ := mem_headToClauses_keys.mp hmem
    exact hp.tupleNode?_ne_clauseNode ht k rfl
  have hprod : clauseNode k ∈ p.clauseToBody.map Prod.fst :=
    mem_clauseToBody_keys.mpr ⟨k, hk, rfl⟩
  unfold skeleton
  rw [CausalGraph.roleCount_ofNames hp.singletons_subset hp.sums_resolvable hp.prods_resolvable]
  simp [clauseNode_not_singleton k, hsum, hprod]

/-- A tuple has a second role exactly when it is an input that some clause derives. -/
theorem Numbered.roleCount_tupleNode (hsize : p.tupleIds.length ≤ Text.word64) {t : GroundTuple}
    {node : String} (ht : p.tupleNode? t = some node) :
    1 ≤ (p.skeleton α).roleCount (p.graphNodes.idxOf node) ∧
      (2 ≤ (p.skeleton α).roleCount (p.graphNodes.idxOf node) ↔
        t ∈ p.inputs ∧ p.Derives t) := by
  have hsum : node ∈ p.headToClauses.map Prod.fst ↔ p.Derives t := by
    rw [mem_headToClauses_keys]
    constructor
    · rintro ⟨s, hs, hnode⟩
      exact hp.tupleNode?_injective hnode ht ▸ hs
    · intro hderives
      exact ⟨t, hderives, ht⟩
  have hprod : node ∉ p.clauseToBody.map Prod.fst := by
    intro hmem
    obtain ⟨k, _, hsame⟩ := mem_clauseToBody_keys.mp hmem
    exact hp.tupleNode?_ne_clauseNode ht k hsame
  unfold skeleton
  rw [CausalGraph.roleCount_ofNames hp.singletons_subset hp.sums_resolvable hp.prods_resolvable]
  by_cases hderives : p.Derives t <;> by_cases hinput : t ∈ p.inputs <;>
    simp [hp.mem_graphSingletons hsize ht, hsum, hprod, hderives, hinput]

theorem Numbered.roles (hsize : p.tupleIds.length ≤ Text.word64) :
    ∀ id < (p.skeleton α).nodeCount, 1 ≤ (p.skeleton α).roleCount id ∧
      (2 ≤ (p.skeleton α).roleCount id → ∃ t ∈ p.inputs, p.Derives t) := by
  intro id hid
  have hnodes : p.graphNodes.Nodup := Arrival.distinct_nodup _
  have hlt : id < p.graphNodes.length := hid
  have hmem : p.graphNodes[id] ∈ p.graphNodes := List.getElem_mem hlt
  have hplace : p.graphNodes.idxOf p.graphNodes[id] = id := hnodes.idxOf_getElem id hlt
  rcases mem_graphNodes.mp hmem with ⟨k, hk, hnode⟩ | ⟨t, _, ht⟩
  · rw [hnode] at hplace
    have hcount : (p.skeleton α).roleCount id = 1 := by
      rw [← hplace]
      exact hp.roleCount_clauseNode hk
    omega
  · obtain ⟨hone, htwo⟩ := hp.roleCount_tupleNode hsize ht
    rw [hplace] at hone htwo
    exact ⟨hone, fun hcount => ⟨t, htwo.mp hcount⟩⟩

/-- The graph of a provenance is built, except that an input that is also derived overlaps. -/
theorem Numbered.graphWith_cases (hsize : p.tupleIds.length ≤ Text.word64)
    (table : PriorTable α) :
    ((∀ t ∈ p.inputs, ¬ p.Derives t) ∧ (p.skeleton α).validate = .ok () ∧
        p.graphWith table = .ok ((p.skeleton α).applyPriors table)) ∨
      ((∃ t ∈ p.inputs, p.Derives t) ∧
        ∃ node, p.graphWith table = .error (.overlappedNode node)) := by
  have hroles : ∀ id < (p.skeleton α).nodeCount, 1 ≤ (p.skeleton α).roleCount id ∧
      (2 ≤ (p.skeleton α).roleCount id → ∃ t ∈ p.inputs, p.Derives t) := hp.roles hsize
  rcases CausalGraph.validate_cases (fun id hid => (hroles id hid).1) with
    hvalid | ⟨id, node, hnode, htwo, hvalid⟩
  · left
    refine ⟨?_, hvalid, ?_⟩
    · intro t hinput hderives
      obtain ⟨node, ht⟩ := hp.exists_tupleNode hderives.mem_mentioned
      have hmem : node ∈ p.graphNodes :=
        mem_graphNodes.mpr (Or.inr ⟨t, hderives.mem_mentioned, ht⟩)
      have hone : (p.skeleton α).roleCount (p.graphNodes.idxOf node) = 1 :=
        CausalGraph.validate_ok_iff.mp hvalid _ (List.idxOf_lt_length_of_mem hmem)
      have htwo : 2 ≤ (p.skeleton α).roleCount (p.graphNodes.idxOf node) :=
        (hp.roleCount_tupleNode hsize ht).2.mpr ⟨hinput, hderives⟩
      omega
    · rw [hp.graphWith_eq, hvalid]
      rfl
  · right
    refine ⟨(hroles id (List.getElem?_eq_some_iff.mp hnode).1).2 htwo, node, ?_⟩
    rw [hp.graphWith_eq, hvalid]
    rfl

end Roles

/-! ## What the graph shows -/

/-- A graph shows a provenance: its nodes are the clauses and the tuples, a clause is a product over
its body, a derived tuple a sum over its clauses, and any other tuple a singleton. -/
structure Depicts (p : Provenance) (g : CausalGraph α) : Prop where
  nodes_nodup : g.nodes.Nodup
  mem_nodes : ∀ node, node ∈ g.nodes ↔ (∃ k < p.clauses.length, node = clauseNode k) ∨
    ∃ t ∈ ClauseIndex.mentioned p.clauses, p.tupleNode? t = some node
  tuple_named : ∀ t ∈ ClauseIndex.mentioned p.clauses, ∃ node, p.tupleNode? t = some node
  one_role : g.validate = .ok ()
  clause_product : ∀ k c, p.clauses[k]? = some c →
    g.prodNamed? (clauseNode k) = some (p.bodyOf c)
  derived_sum : ∀ t node, p.tupleNode? t = some node → p.Derives t →
    g.sumNamed? node = some (p.clausesOf t)
  other_singleton : ∀ t node, p.tupleNode? t = some node → ¬ p.Derives t →
    node ∈ g.namesOf g.singletons

/-- What a graph shows is about its structure, not about its priors. -/
theorem Depicts.of_forgetPriors {g h : CausalGraph α} (hg : p.Depicts g)
    (hsame : h.forgetPriors = g.forgetPriors) : p.Depicts h := by
  obtain ⟨name, nodes, singletons, sums, prods, dists, stochastic⟩ := g
  obtain ⟨name', nodes', singletons', sums', prods', dists', stochastic'⟩ := h
  simp only [CausalGraph.forgetPriors, CausalGraph.mk.injEq] at hsame
  obtain ⟨rfl, rfl, rfl, rfl, rfl, -, -⟩ := hsame
  exact ⟨hg.nodes_nodup, hg.mem_nodes, hg.tuple_named, hg.one_role, hg.clause_product,
    hg.derived_sum, hg.other_singleton⟩

theorem clausesOf_nodup (p : Provenance) (t : GroundTuple) : (p.clausesOf t).Nodup := by
  have hsub : ((p.clauses.zipIdx.filter (fun entry => entry.1.head = t)).map Prod.snd).Sublist
      (p.clauses.zipIdx.map Prod.snd) := List.filter_sublist.map Prod.snd
  have hnodup : (p.clauses.zipIdx.map Prod.snd).Nodup := by
    rw [List.zipIdx_map_snd]
    exact List.nodup_range'
  have hplaces := List.Nodup.map clauseNode_injective (hsub.nodup hnodup)
  rwa [List.map_map] at hplaces

theorem Numbered.skeleton_depicts (hp : p.Numbered) (hsize : p.tupleIds.length ≤ Text.word64)
    (hvalid : (p.skeleton α).validate = .ok ()) : p.Depicts (p.skeleton α) where
  nodes_nodup := Arrival.distinct_nodup _
  mem_nodes := fun _ => mem_graphNodes
  tuple_named := fun _ ht => hp.exists_tupleNode ht
  one_role := hvalid
  clause_product := by
    intro k c hc
    have hentry := mem_clauseToBody.mpr ⟨k, c, hc, rfl, rfl⟩
    have hget := CausalGraph.get?_map_placed hp.prods_resolvable hentry
    have hnode := CausalGraph.nodeIn?_of_mem (clauseNode_mem_graphNodes hc)
    have hnames : (p.skeleton α).namesOf
        (CausalGraph.placesOf p.graphNodes (c.bodyTuples.filterMap p.tupleNode?)) = p.bodyOf c :=
      CausalGraph.namesOf_placesOf (hp.prods_resolvable.body_subset _ hentry)
    unfold CausalGraph.prodNamed? CausalGraph.nodeId? CausalGraph.prod?
    change (do
      return (p.skeleton α).namesOf (← Arrival.get? (p.clauseToBody.map
        (CausalGraph.placed p.graphNodes)) (← CausalGraph.nodeIn? p.graphNodes (clauseNode k)))) = _
    rw [hnode]
    simp only [Option.bind_eq_bind, Option.bind_some, hget, hnames]
    rfl
  derived_sum := by
    intro t node ht hderives
    have hentry : (node, p.clausesOf t) ∈ p.headToClauses :=
      hp.mem_headToClauses.mpr ⟨t, hderives, ht, rfl⟩
    have hget := CausalGraph.get?_map_placed hp.sums_resolvable hentry
    have hnode := CausalGraph.nodeIn?_of_mem
      (mem_graphNodes.mpr (Or.inr ⟨t, hderives.mem_mentioned, ht⟩))
    have hnames : (p.skeleton α).namesOf
        (CausalGraph.placesOf p.graphNodes (p.clausesOf t)) = p.clausesOf t := by
      have hbodyNodes : p.clausesOf t ⊆ (p.skeleton α).nodes :=
        hp.sums_resolvable.body_subset _ hentry
      have hread := CausalGraph.namesOf_placesOf hbodyNodes
      rwa [Arrival.distinct_of_nodup (p.clausesOf_nodup t)] at hread
    unfold CausalGraph.sumNamed? CausalGraph.nodeId? CausalGraph.sum?
    change (do
      return (p.skeleton α).namesOf (← Arrival.get? (p.headToClauses.map
        (CausalGraph.placed p.graphNodes)) (← CausalGraph.nodeIn? p.graphNodes node))) = _
    rw [hnode]
    simp only [Option.bind_eq_bind, Option.bind_some, hget, hnames]
    rfl
  other_singleton := by
    intro t node ht hnot
    have hnames : (p.skeleton α).namesOf (p.skeleton α).singletons =
        Arrival.distinct p.graphSingletons :=
      CausalGraph.namesOf_placesOf hp.singletons_subset
    rw [hnames, Arrival.mem_distinct, hp.mem_graphSingletons hsize ht]
    exact Or.inr hnot

/-! ## Priors -/

/-- A prior was given for the clause or the input that the node stands for. -/
def PriorGiven {β : Type} (p : Provenance) (ofClause : GroundClause → Option β)
    (ofInput : GroundTuple → Option β) (node : String) : Prop :=
  (∃ k c, p.clauses[k]? = some c ∧ (ofClause c).isSome ∧ node = clauseNode k) ∨
    ∃ k t, p.inputs[k]? = some t ∧ (ofInput t).isSome ∧ node = (ProvenanceId.input k).text

section Named

variable {β ι : Type} {items : List ι} {value? : ι → Option β} {name : Nat → ProvenanceId}
  {node : String}

/-- The values of some numbered items under the names of their numbers. -/
def namedValues (name : Nat → ProvenanceId) (value? : ι → Option β) (items : List ι) :
    List (String × β) :=
  items.zipIdx.filterMap (fun entry =>
    (value? entry.1).map (fun value => ((name entry.2).text, value)))

theorem mem_namedValues {value : β} :
    (node, value) ∈ namedValues name value? items ↔
      ∃ k item, items[k]? = some item ∧ value? item = some value ∧ node = (name k).text := by
  simp only [namedValues, List.mem_filterMap, Option.map_eq_some_iff, Prod.exists,
    List.mem_zipIdx_iff_getElem?, Prod.mk.injEq]
  constructor
  · rintro ⟨item, k, hitem, _, hvalue, rfl, rfl⟩
    exact ⟨k, item, hitem, hvalue, rfl⟩
  · rintro ⟨k, item, hitem, hvalue, rfl⟩
    exact ⟨item, k, hitem, value, hvalue, rfl, rfl⟩

theorem mem_namedValues_names :
    node ∈ (namedValues name value? items).map Prod.fst ↔
      ∃ k item, items[k]? = some item ∧ (value? item).isSome ∧ node = (name k).text := by
  simp only [List.mem_map, Prod.exists, exists_and_right, exists_eq_right, mem_namedValues,
    Option.isSome_iff_exists]
  constructor
  · rintro ⟨value, k, item, hitem, hvalue, rfl⟩
    exact ⟨k, item, hitem, ⟨value, hvalue⟩, rfl⟩
  · rintro ⟨k, item, hitem, ⟨value, hvalue⟩, rfl⟩
    exact ⟨value, k, item, hitem, hvalue, rfl⟩

theorem annotated_eq {ofClause : GroundClause → Option β} {ofInput : GroundTuple → Option β} :
    p.annotated ofClause ofInput =
      namedValues .clause ofClause p.clauses ++ namedValues .input ofInput p.inputs :=
  rfl

theorem mem_annotated_names {ofClause : GroundClause → Option β} {ofInput : GroundTuple → Option β} :
    node ∈ (p.annotated ofClause ofInput).map Prod.fst ↔ p.PriorGiven ofClause ofInput node := by
  rw [annotated_eq, List.map_append, List.mem_append, mem_namedValues_names, mem_namedValues_names]
  rfl

end Named

/-- The stochastic nodes of a graph are those for which a prior was given. -/
def StochasticBy {β : Type} (p : Provenance) (g : CausalGraph α)
    (ofClause : GroundClause → Option β) (ofInput : GroundTuple → Option β) : Prop :=
  ∀ id, g.isStochastic id = true ↔
    ∃ node, g.nodeId? node = some id ∧ p.PriorGiven ofClause ofInput node

theorem skeleton_stochasticBy {β : Type} {table : PriorTable α} (htable : table.WellFormed)
    {ofClause : GroundClause → Option β} {ofInput : GroundTuple → Option β}
    (hnames : table.names = (p.annotated ofClause ofInput).map Prod.fst) :
    p.StochasticBy ((p.skeleton α).applyPriors table) ofClause ofInput := by
  obtain ⟨hshape, hstochastic⟩ := (p.skeleton α).applyPriors_spec htable
  have hnodes : ((p.skeleton α).applyPriors table).nodes = (p.skeleton α).nodes := by
    have hsame := congrArg CausalGraph.nodes hshape
    exact hsame
  intro id
  have hplain : (p.skeleton α).isStochastic id = false := rfl
  rw [hstochastic id, hnames, hplain]
  simp only [Bool.false_eq_true, false_or, mem_annotated_names, CausalGraph.nodeId?, hnodes]
  constructor
  · rintro ⟨node, hprior, hid⟩
    exact ⟨node, hid, hprior⟩
  · rintro ⟨node, hid, hprior⟩
    exact ⟨node, hprior, hid⟩

end DerivationBelief.Provenance

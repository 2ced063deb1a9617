import DerivationBelief.Provenance
import DerivationBelief.Proofs.ClauseIndex
import DerivationBelief.Proofs.ProvenanceId
import Mathlib.Tactic

/-!
# Numbered tuples of a provenance

The inputs, the outputs and the hidden tuples of a provenance share out the tuples of its clauses.
Each tuple has one identifier, and the identifier names the tuple.
-/

namespace DerivationBelief.Provenance

variable {p : Provenance} {t : GroundTuple} {id : ProvenanceId}

/-- Some clause of the provenance has the tuple as its head. -/
def Derives (p : Provenance) (t : GroundTuple) : Prop :=
  ∃ c ∈ p.clauses, c.head = t

theorem zipIdx_named_fst (name : Nat → ProvenanceId) (tuples : List GroundTuple) :
    (tuples.zipIdx.map (fun entry => (entry.1, name entry.2))).map Prod.fst = tuples := by
  rw [List.map_map]
  exact List.zipIdx_map_fst 0 tuples

theorem mem_zipIdx_named {name : Nat → ProvenanceId} {tuples : List GroundTuple} :
    (t, id) ∈ tuples.zipIdx.map (fun entry => (entry.1, name entry.2)) ↔
      ∃ k, tuples[k]? = some t ∧ id = name k := by
  simp only [List.mem_map, Prod.exists, Prod.mk.injEq, List.mem_zipIdx_iff_getElem?]
  constructor
  · rintro ⟨s, k, hs, rfl, rfl⟩
    exact ⟨k, hs, rfl⟩
  · rintro ⟨k, ht, rfl⟩
    exact ⟨t, k, ht, rfl, rfl⟩

/-- The parts of a provenance share out the tuples of its clauses, and the table of identifiers
lists them part by part. -/
structure Numbered (p : Provenance) : Prop where
  parts_nodup : (p.inputs ++ (p.outputs ++ p.hidden)).Nodup
  mem_parts : ∀ t, t ∈ p.inputs ++ (p.outputs ++ p.hidden) ↔ t ∈ ClauseIndex.mentioned p.clauses
  tupleIds_eq : p.tupleIds =
    p.inputs.zipIdx.map (fun entry => (entry.1, ProvenanceId.input entry.2)) ++
      (p.outputs.zipIdx.map (fun entry => (entry.1, ProvenanceId.output entry.2)) ++
        p.hidden.zipIdx.map (fun entry => (entry.1, ProvenanceId.hidden entry.2)))

theorem numberTuples_of_new {ids : List (GroundTuple × ProvenanceId)}
    {name : Nat → ProvenanceId} {tuples : List GroundTuple}
    (hnodup : (ids.map Prod.fst ++ tuples).Nodup) :
    numberTuples ids name tuples =
      ids ++ tuples.zipIdx.map (fun entry => (entry.1, name entry.2)) := by
  unfold numberTuples
  apply Arrival.putAll_of_new
  rwa [List.map_append, zipIdx_named_fst]

/-- Inputs and outputs among the tuples of the clauses, without repetitions, make a numbered
provenance. -/
theorem ofParts_numbered (name : String) {inputs outputs : List GroundTuple}
    {clauses : List GroundClause} (rules : List String)
    (hnodup : (inputs ++ outputs).Nodup)
    (hsubset : inputs ++ outputs ⊆ ClauseIndex.mentioned clauses) :
    (ofParts name (ClauseIndex.mentioned clauses) inputs outputs clauses rules).Numbered := by
  set visible := numberTuples (numberTuples [] .input inputs) .output outputs with hvisible
  have hinputs : numberTuples [] .input inputs =
      inputs.zipIdx.map (fun entry => (entry.1, ProvenanceId.input entry.2)) := by
    rw [numberTuples_of_new (by simpa using hnodup.of_append_left)]
    rfl
  have houtputs : visible =
      inputs.zipIdx.map (fun entry => (entry.1, ProvenanceId.input entry.2)) ++
        outputs.zipIdx.map (fun entry => (entry.1, ProvenanceId.output entry.2)) := by
    rw [hvisible, hinputs, numberTuples_of_new (by rwa [zipIdx_named_fst])]
  have hkeys : visible.map Prod.fst = inputs ++ outputs := by
    rw [houtputs, List.map_append, zipIdx_named_fst, zipIdx_named_fst]
  have hhidden : ∀ t, Arrival.hasKey visible t = true ↔ t ∈ inputs ++ outputs := by
    intro t
    unfold Arrival.hasKey
    rw [Option.isSome_iff_ne_none, Ne, Arrival.get?_eq_none_iff, not_not, hkeys]
  set hidden := (ClauseIndex.mentioned clauses).filter (fun t => !Arrival.hasKey visible t)
  have hparts : (inputs ++ outputs ++ hidden).Nodup := by
    rw [List.nodup_append]
    refine ⟨hnodup, (ClauseIndex.mentioned_nodup clauses).filter _, ?_⟩
    rintro t ht s hs rfl
    have hnot := (List.mem_filter.mp hs).2
    rw [(hhidden t).mpr ht] at hnot
    cases hnot
  refine ⟨by rwa [← List.append_assoc], ?_, ?_⟩
  · intro t
    change t ∈ inputs ++ (outputs ++ hidden) ↔ t ∈ ClauseIndex.mentioned clauses
    rw [← List.append_assoc, List.mem_append, List.mem_filter, Bool.not_eq_true', ← hhidden]
    constructor
    · rintro (hvisible | ⟨hmem, _⟩)
      · exact hsubset ((hhidden t).mp hvisible)
      · exact hmem
    · intro hmem
      cases hkey : Arrival.hasKey visible t with
      | false => exact Or.inr ⟨hmem, rfl⟩
      | true => exact Or.inl rfl
  · change numberTuples visible .hidden hidden = _
    rw [numberTuples_of_new (by rwa [hkeys]), houtputs, List.append_assoc]
    rfl

namespace Numbered

/-- A tuple has an identifier exactly when the identifier names the tuple. -/
theorem tupleId?_eq_some_iff (hp : p.Numbered) :
    p.tupleId? t = some id ↔ p.tupleOf? id = some t := by
  have hkeys : (p.tupleIds.map Prod.fst).Nodup := by
    rw [hp.tupleIds_eq, List.map_append, List.map_append, zipIdx_named_fst, zipIdx_named_fst,
      zipIdx_named_fst]
    exact hp.parts_nodup
  unfold tupleId?
  rw [Arrival.get?_eq_some_iff hkeys, hp.tupleIds_eq, List.mem_append, List.mem_append,
    mem_zipIdx_named, mem_zipIdx_named, mem_zipIdx_named]
  cases id <;> simp [tupleOf?]

theorem tupleId?_injective (hp : p.Numbered) {s : GroundTuple} (hs : p.tupleId? s = some id)
    (ht : p.tupleId? t = some id) : s = t := by
  rw [hp.tupleId?_eq_some_iff] at hs ht
  exact Option.some.inj (hs.symm.trans ht)

theorem exists_tupleId (hp : p.Numbered) (ht : t ∈ ClauseIndex.mentioned p.clauses) :
    ∃ id, p.tupleId? t = some id := by
  have hparts := (hp.mem_parts t).mpr ht
  rw [List.mem_append, List.mem_append] at hparts
  rcases hparts with hmem | hmem | hmem <;> obtain ⟨k, hk⟩ := List.mem_iff_getElem?.mp hmem
  · exact ⟨.input k, hp.tupleId?_eq_some_iff.mpr hk⟩
  · exact ⟨.output k, hp.tupleId?_eq_some_iff.mpr hk⟩
  · exact ⟨.hidden k, hp.tupleId?_eq_some_iff.mpr hk⟩

theorem mem_parts_of_tupleId? (hp : p.Numbered) (hid : p.tupleId? t = some id) :
    t ∈ p.inputs ++ (p.outputs ++ p.hidden) := by
  rw [hp.tupleId?_eq_some_iff] at hid
  rw [List.mem_append, List.mem_append]
  cases id with
  | input k => exact Or.inl (List.mem_of_getElem? hid)
  | output k => exact Or.inr (Or.inl (List.mem_of_getElem? hid))
  | hidden k => exact Or.inr (Or.inr (List.mem_of_getElem? hid))
  | clause k => cases hid
  | rule k => cases hid

theorem mem_mentioned_of_tupleId? (hp : p.Numbered) (hid : p.tupleId? t = some id) :
    t ∈ ClauseIndex.mentioned p.clauses :=
  (hp.mem_parts t).mp (hp.mem_parts_of_tupleId? hid)

/-- The number of an identifier is below the number of tuples. -/
theorem number_lt (hp : p.Numbered) (hid : p.tupleId? t = some id) :
    id.number < p.tupleIds.length := by
  have hlength : p.tupleIds.length =
      p.inputs.length + (p.outputs.length + p.hidden.length) := by
    simp [hp.tupleIds_eq]
  rw [hp.tupleId?_eq_some_iff] at hid
  have hplace : ∀ {tuples : List GroundTuple} {k : Nat}, tuples[k]? = some t →
      k < tuples.length := fun hk => (List.getElem?_eq_some_iff.mp hk).1
  cases id with
  | input k =>
      have hk := hplace hid
      simp only [ProvenanceId.number]
      omega
  | output k =>
      have hk := hplace hid
      simp only [ProvenanceId.number]
      omega
  | hidden k =>
      have hk := hplace hid
      simp only [ProvenanceId.number]
      omega
  | clause k => cases hid
  | rule k => cases hid

/-- The identifier of a tuple is that of an input exactly when the tuple is an input. -/
theorem tupleId?_input_iff (hp : p.Numbered) (hid : p.tupleId? t = some id) :
    t ∈ p.inputs ↔ ∃ k, id = .input k := by
  constructor
  · intro hmem
    obtain ⟨k, hk⟩ := List.mem_iff_getElem?.mp hmem
    have hinput := hp.tupleId?_eq_some_iff.mpr (show p.tupleOf? (.input k) = some t from hk)
    exact ⟨k, Option.some.inj (hid.symm.trans hinput)⟩
  · rintro ⟨k, rfl⟩
    exact List.mem_of_getElem? (hp.tupleId?_eq_some_iff.mp hid)

end Numbered

end DerivationBelief.Provenance

import DerivationBelief.Proofs.FactGraphs
import DerivationBelief.Proofs.FaultyRuns
import DerivationBelief.Proofs.ProvenanceBuilder
import Mathlib.Tactic

/-!
# Identifiers stand for tuples one to one

A builder keeps its inputs and outputs without repetitions and takes an output that is an input as
well for an input only.  So whatever it was given, the three lists of a computed provenance share
out the tuples of the retained clauses.  Each tuple has one identifier, a letter for its list and
its place in the list, and reading the identifier leads back to the tuple.  A text that leads to the
tuple is its identifier, perhaps with zeros in front of the number.
-/

namespace DerivationBelief

/-! ## Lists of identifiers -/

namespace Provenance

variable {p : Provenance} {t : GroundTuple} {id : ProvenanceId}

theorem tupleId_eq_ok_iff {text : String} :
    p.tupleId t = .ok text ↔ ∃ id, p.tupleId? t = some id ∧ text = id.text := by
  unfold tupleId
  cases p.tupleId? t with
  | none => simp
  | some id => simp [eq_comm]

theorem read_eq_ok_iff {text : String} :
    ProvenanceId.read text = .ok id ↔ ProvenanceId.readChars? text.toList = some id := by
  unfold ProvenanceId.read
  cases ProvenanceId.readChars? text.toList with
  | none => simp
  | some read => simp

theorem read_text (hid : id.number < Text.word64) : ProvenanceId.read id.text = .ok id :=
  read_eq_ok_iff.mpr (ProvenanceId.readChars?_text hid)

theorem decodeTuple_eq_ok_iff {text : String} :
    p.decodeTuple text = .ok t ↔
      ∃ id, ProvenanceId.readChars? text.toList = some id ∧ p.tupleOf? id = some t := by
  unfold decodeTuple
  rw [bind_eq_ok_iff]
  simp only [read_eq_ok_iff]
  refine exists_congr (fun id => and_congr_right' ?_)
  cases p.tupleOf? id with
  | none => simp
  | some s => simp

theorem decodeTuple_text (hid : id.number < Text.word64) (ht : p.tupleOf? id = some t) :
    p.decodeTuple id.text = .ok t :=
  decodeTuple_eq_ok_iff.mpr ⟨id, ProvenanceId.readChars?_text hid, ht⟩

theorem decodeClause_text {k : Nat} (hk : k < Text.word64) {clause : GroundClause}
    (hclause : p.clauses[k]? = some clause) :
    p.decodeClause (ProvenanceId.clause k).text = .ok clause := by
  have hread : ProvenanceId.read (ProvenanceId.clause k).text = .ok (.clause k) := read_text hk
  unfold decodeClause
  rw [hread]
  simp only [bind, Except.bind, clauseOf?, hclause]

theorem idsBelow_length {β : Type} (name : Nat → ProvenanceId) (items : List β) :
    idsBelow name items.length = items.zipIdx.map (fun entry => (name entry.2).text) := by
  unfold idsBelow
  rw [List.range_eq_range', ← List.zipIdx_map_snd 0 items, List.map_map]
  rfl

/-- Identifiers that number a list are decoded to the list. -/
theorem mapM_idsBelow {β : Type} {name : Nat → ProvenanceId} {items : List β}
    {decode : String → Except ProvenanceFault β}
    (hdecode : ∀ k item, items[k]? = some item → decode (name k).text = .ok item) :
    (idsBelow name items.length).mapM decode = .ok items := by
  have hrun : items.zipIdx.mapM (decode ∘ fun entry => (name entry.2).text) =
      .ok (items.zipIdx.map Prod.fst) :=
    mapM_answered (fun entry hentry =>
      hdecode entry.2 entry.1 (List.mem_zipIdx_iff_getElem?.mp hentry))
  rw [idsBelow_length, List.mapM_map, hrun, List.zipIdx_map_fst]

/-! ## One identifier for each tuple -/

/-- The lists of a provenance have no tuple twice and share out the tuples of its clauses; the
tuples in them have identifiers, and no two the same. -/
structure IdentifiesTuples (p : Provenance) : Prop where
  inputs_nodup : p.inputs.Nodup
  outputs_nodup : p.outputs.Nodup
  hidden_nodup : p.hidden.Nodup
  inputs_outputs : p.inputs.Disjoint p.outputs
  inputs_hidden : p.inputs.Disjoint p.hidden
  outputs_hidden : p.outputs.Disjoint p.hidden
  mem_iff : ∀ t, t ∈ p.inputs ∨ t ∈ p.outputs ∨ t ∈ p.hidden ↔
    ∃ clause ∈ p.clauses, t = clause.head ∨ t ∈ clause.bodyTuples
  tupleId_ok_iff : ∀ t, (∃ text, p.tupleId t = .ok text) ↔
    t ∈ p.inputs ∨ t ∈ p.outputs ∨ t ∈ p.hidden
  tupleId_injective : ∀ s t text, p.tupleId s = .ok text → p.tupleId t = .ok text → s = t

/-- A text is an identifier or has zeros in front of the number of the identifier. -/
def ZeroPadded (text identifier : String) : Prop :=
  ∃ letter zeros digits, text.toList = letter :: (List.replicate zeros '0' ++ digits) ∧
    identifier.toList = letter :: digits

/-- Identifiers lead back to what they stand for, one by one and list by list. -/
structure DecodesIdentifiers (p : Provenance) : Prop where
  decode_tupleId : ∀ t text, p.tupleId t = .ok text → p.decodeTuple text = .ok t
  decode_inputs : p.inputIds.mapM p.decodeTuple = .ok p.inputs
  decode_outputs : p.outputIds.mapM p.decodeTuple = .ok p.outputs
  decode_hidden : p.hiddenIds.mapM p.decodeTuple = .ok p.hidden
  decode_clauses : p.clauseIds.mapM p.decodeClause = .ok p.clauses

/-- The tuples and the clauses can be numbered with 64 bits. -/
structure Addressable (p : Provenance) : Prop where
  tuples_le : p.tupleIds.length ≤ Text.word64
  clauses_le : p.clauses.length ≤ Text.word64

namespace Numbered

theorem identifiesTuples (hp : p.Numbered) : p.IdentifiesTuples := by
  have hparts : ∀ t, t ∈ p.inputs ∨ t ∈ p.outputs ∨ t ∈ p.hidden ↔
      t ∈ ClauseIndex.mentioned p.clauses := by
    intro t
    rw [← hp.mem_parts, List.mem_append, List.mem_append]
  have hrest := hp.parts_nodup.of_append_right
  constructor
  case inputs_nodup => exact hp.parts_nodup.of_append_left
  case outputs_nodup => exact hrest.of_append_left
  case hidden_nodup => exact hrest.of_append_right
  case inputs_outputs =>
    exact (List.disjoint_append_right.mp (List.disjoint_of_nodup_append hp.parts_nodup)).1
  case inputs_hidden =>
    exact (List.disjoint_append_right.mp (List.disjoint_of_nodup_append hp.parts_nodup)).2
  case outputs_hidden => exact List.disjoint_of_nodup_append hrest
  case mem_iff => exact fun t => (hparts t).trans ClauseIndex.mem_mentioned
  case tupleId_ok_iff =>
    intro t
    rw [hparts]
    constructor
    · rintro ⟨text, htext⟩
      obtain ⟨id, hid, _⟩ := tupleId_eq_ok_iff.mp htext
      exact hp.mem_mentioned_of_tupleId? hid
    · intro ht
      obtain ⟨id, hid⟩ := hp.exists_tupleId ht
      exact ⟨id.text, tupleId_eq_ok_iff.mpr ⟨id, hid, rfl⟩⟩
  case tupleId_injective =>
    intro s t text hs ht
    obtain ⟨id, hid, rfl⟩ := tupleId_eq_ok_iff.mp hs
    obtain ⟨other, hother, hsame⟩ := tupleId_eq_ok_iff.mp ht
    cases ProvenanceId.text_injective hsame
    exact hp.tupleId?_injective hid hother

/-- An identifier that leads to a tuple is the one of the tuple. -/
theorem zeroPadded_of_decodeTuple (hp : p.Numbered) {text : String}
    (hdecode : p.decodeTuple text = .ok t) :
    ∃ identifier, p.tupleId t = .ok identifier ∧ ZeroPadded text identifier := by
  obtain ⟨id, hread, ht⟩ := decodeTuple_eq_ok_iff.mp hdecode
  obtain ⟨letter, zeros, htext, hchars⟩ := ProvenanceId.chars_of_readChars? hread
  refine ⟨id.text, tupleId_eq_ok_iff.mpr ⟨id, hp.tupleId?_eq_some_iff.mpr ht, rfl⟩, letter, zeros,
    _, htext, ?_⟩
  unfold ProvenanceId.text
  rw [String.toList_ofList, hchars]

theorem decodesIdentifiers (hp : p.Numbered) (hsize : p.Addressable) : p.DecodesIdentifiers := by
  have hdecode : ∀ {t : GroundTuple} (id : ProvenanceId), p.tupleOf? id = some t →
      p.decodeTuple id.text = .ok t := by
    intro t id ht
    exact decodeTuple_text
      ((hp.number_lt (hp.tupleId?_eq_some_iff.mpr ht)).trans_le hsize.tuples_le) ht
  constructor
  case decode_tupleId =>
    intro t text htext
    obtain ⟨id, hid, rfl⟩ := tupleId_eq_ok_iff.mp htext
    exact hdecode id (hp.tupleId?_eq_some_iff.mp hid)
  case decode_inputs => exact mapM_idsBelow (fun _ _ hk => hdecode (.input _) hk)
  case decode_outputs => exact mapM_idsBelow (fun _ _ hk => hdecode (.output _) hk)
  case decode_hidden => exact mapM_idsBelow (fun _ _ hk => hdecode (.hidden _) hk)
  case decode_clauses =>
    apply mapM_idsBelow
    intro k clause hclause
    have hk := (List.getElem?_eq_some_iff.mp hclause).1
    exact decodeClause_text (hk.trans_le hsize.clauses_le) hclause

end Numbered

end Provenance

/-! ## Builders after any calls -/

namespace ProvenanceBuilder

/-- A builder after some calls, computations of provenances among them. -/
inductive Reachable : ProvenanceBuilder → Prop
  | new (name : String) (prune augment : Bool) : Reachable (new name prune augment)
  | perform {b : ProvenanceBuilder} (hb : Reachable b) (call : BuilderCall) :
      Reachable (b.perform call)
  | computeFor {b : ProvenanceBuilder} (hb : Reachable b) (observed : List GroundTuple) :
      Reachable (b.computeFor observed)

variable {b : ProvenanceBuilder}

open ClausePruner (letter)

theorem Reachable.listed (hb : b.Reachable) : b.Listed := by
  induction hb with
  | new name prune augment => exact new_listed name prune augment
  | perform _ call ih => exact ih.perform call
  | computeFor _ observed ih => exact ⟨ih.inputs_nodup, ih.outputs_nodup⟩

theorem ofFeed_reachable (name : String) (prune augment : Bool) (feed : FactFeed) :
    (ofFeed name prune augment feed).Reachable :=
  ((((Reachable.new name prune augment).perform (.addRules feed.rules)).perform
    (.addInputs feed.inputs)).perform (.addClauses feed.clauses)).perform (.addOutputs feed.outputs)

/-- Whatever a builder was given before, the provenance it computes for observed tuples identifies
the tuples of its clauses.  A text that leads to a tuple is the identifier of the tuple, up to zeros
in front of the number, and when the numbers fit 64 bits, every identifier leads back. -/
theorem identifiers_biject (hb : b.Reachable) (observed : List GroundTuple) :
    ∃ p, (b.computeFor observed).provenance = .ok p ∧ p.IdentifiesTuples ∧
      (∀ text t, p.decodeTuple text = .ok t →
        ∃ identifier, p.tupleId t = .ok identifier ∧ Provenance.ZeroPadded text identifier) ∧
      (p.Addressable → p.DecodesIdentifiers) := by
  have hp := hb.listed.provenanceFor_numbered observed
  exact ⟨b.provenanceFor observed, rfl, hp.identifiesTuples,
    fun _ _ hdecode => hp.zeroPadded_of_decodeTuple hdecode, hp.decodesIdentifiers⟩

theorem chainFeed_identifiers_biject :
    (ofFeed "chain" true true chainFeed).Reachable ∧ chainProvenance.Addressable ∧
      chainProvenance.IdentifiesTuples ∧ chainProvenance.DecodesIdentifiers ∧
      chainProvenance.decodeTuple "H00" = .ok (letter "A") := by
  have hchain : ((ofFeed "chain" true true chainFeed).computeFor [letter "B"]).provenance =
      .ok chainProvenance := by decide +kernel
  have hreachable := ofFeed_reachable "chain" true true chainFeed
  have hsize : chainProvenance.Addressable := ⟨by decide, by decide⟩
  obtain ⟨p, hp, hidentifies, _, hdecodes⟩ := identifiers_biject hreachable [letter "B"]
  cases hp.symm.trans hchain
  exact ⟨hreachable, hsize, hidentifies, hdecodes hsize, by decide +kernel⟩

end ProvenanceBuilder

end DerivationBelief

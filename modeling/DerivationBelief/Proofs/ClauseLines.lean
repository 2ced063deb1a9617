import DerivationBelief.Proofs.TupleIdentifiers
import Mathlib.Tactic

/-!
# Clauses are read back from their lines

A clause is written in one line: its rule and its number, its head, and its body with commas between
the literals.  Identifiers have letters and digits only, so the marks between the parts stay apart
from them, and the line is read without knowing the clause.  The tables of heads and bodies list
every clause once.
-/

namespace DerivationBelief

/-! ## Cutting a line at its marks -/

/-- What stands in front of the first occurrence of a mark and what stands behind it. -/
def cutAt? (mark : List Char) : List Char → Option (List Char × List Char)
  | [] => none
  | c :: cs =>
      if mark.isPrefixOf (c :: cs) then some ([], (c :: cs).drop mark.length)
      else (cutAt? mark cs).map (fun parts => (c :: parts.1, parts.2))

theorem cutAt?_append {c : Char} {front : List Char} (hfront : c ∉ front)
    (mark rest : List Char) :
    cutAt? (c :: mark) (front ++ (c :: mark ++ rest)) = some (front, rest) := by
  induction front with
  | nil =>
      have hmark : (c :: mark).isPrefixOf (c :: (mark ++ rest)) = true := by
        rw [List.isPrefixOf_iff_prefix]
        exact List.prefix_append (c :: mark) rest
      change cutAt? (c :: mark) (c :: (mark ++ rest)) = _
      rw [cutAt?, if_pos hmark]
      have hdrop : (c :: mark ++ rest).drop (c :: mark).length = rest := List.drop_left
      exact congrArg (fun cs => some ([], cs)) hdrop
  | cons d front ih =>
      rw [List.mem_cons, not_or] at hfront
      have hmark : ¬ (c :: mark).isPrefixOf (d :: (front ++ (c :: mark ++ rest))) = true := by
        rw [List.isPrefixOf_cons_cons, Bool.and_eq_true, beq_iff_eq]
        exact fun hsame => hfront.1 hsame.1
      rw [List.cons_append, cutAt?, if_neg hmark, ih hfront.2]
      rfl

/-! ## Literals -/

/-- A literal as it is written, its tuple encoded. -/
structure EncodedLiteral where
  positive : Bool
  id : String
deriving DecidableEq, Repr

namespace EncodedLiteral

def negation : List Char :=
  "NOT ".toList

def read (cs : List Char) : EncodedLiteral :=
  if negation.isPrefixOf cs then ⟨false, String.ofList (cs.drop negation.length)⟩
  else ⟨true, String.ofList cs⟩

def decode (p : Provenance) (l : EncodedLiteral) : Except ProvenanceFault Literal := do
  return ⟨← p.decodeTuple l.id, l.positive⟩

def text (l : EncodedLiteral) : String :=
  Provenance.signMark l.positive ++ l.id

def chars (l : EncodedLiteral) : List Char :=
  l.text.toList

theorem chars_eq (l : EncodedLiteral) :
    l.chars = (Provenance.signMark l.positive).toList ++ l.id.toList :=
  String.toList_append

/-- The identifier is nothing but letters and digits. -/
structure Plain (l : EncodedLiteral) : Prop where
  ne_nil : l.id.toList ≠ []
  alphanumeric : ∀ c ∈ l.id.toList, c.isAlphanum = true

variable {l : EncodedLiteral}

theorem isAlphanum_or_blank_of_mem_negation :
    ∀ c ∈ negation, c.isAlphanum = true ∨ c = ' ' := by
  have hall : negation.all (fun c => c.isAlphanum ∨ c = ' ') = true := by decide
  simpa using hall

theorem Plain.not_mem_id (hl : l.Plain) {c : Char} (hc : c.isAlphanum = false) :
    c ∉ l.id.toList := by
  intro hmem
  rw [hl.alphanumeric c hmem] at hc
  cases hc

theorem Plain.not_mem_chars (hl : l.Plain) {c : Char} (hc : c.isAlphanum = false)
    (hblank : c ≠ ' ') : c ∉ l.chars := by
  rw [chars_eq, List.mem_append, not_or]
  refine ⟨?_, hl.not_mem_id hc⟩
  intro hmark
  obtain ⟨positive, id⟩ := l
  cases positive with
  | true => cases hmark
  | false =>
      rcases isAlphanum_or_blank_of_mem_negation c hmark with hletter | hsame
      · rw [hletter] at hc
        cases hc
      · exact hblank hsame

theorem Plain.chars_ne_nil (hl : l.Plain) : l.chars ≠ [] := by
  rw [chars_eq]
  exact List.append_ne_nil_of_right_ne_nil _ hl.ne_nil

theorem Plain.read_chars (hl : l.Plain) : read l.chars = l := by
  obtain ⟨positive, id⟩ := l
  cases positive with
  | false =>
      have hchars : chars ⟨false, id⟩ = negation ++ id.toList := chars_eq _
      have hmark : negation.isPrefixOf (negation ++ id.toList) = true := by
        rw [List.isPrefixOf_iff_prefix]
        exact List.prefix_append negation id.toList
      rw [hchars, read, if_pos hmark, List.drop_left, String.ofList_toList]
  | true =>
      have hchars : chars ⟨true, id⟩ = id.toList := chars_eq _
      -- The mark ends with a blank, an identifier has none.
      have hmark : ¬ negation.isPrefixOf id.toList = true := by
        rw [List.isPrefixOf_iff_prefix]
        intro hstarts
        have hblank : ' ' ∈ id.toList := hstarts.subset (by decide)
        exact hl.not_mem_id (by decide) hblank
      rw [hchars, read, if_neg hmark, String.ofList_toList]

end EncodedLiteral

/-! ## Lines -/

/-- A clause as it is written, its tuples encoded. -/
structure ClauseLine where
  rule : Nat
  number : Nat
  head : EncodedLiteral
  body : List EncodedLiteral
deriving DecidableEq, Repr

namespace ClauseLine

def readBody (cs : List Char) : List EncodedLiteral :=
  if cs.isEmpty then [] else (cs.splitOn ',').map EncodedLiteral.read

/-- Reads lines such as `R3-D0 : O0=NOT I1,H2`. -/
def read? (line : String) : Option ClauseLine := do
  let (label, clause) ← cutAt? [' ', ':', ' '] line.toList
  let (rule, number) ← cutAt? ['-'] label
  let (head, body) ← cutAt? ['='] clause
  match ProvenanceId.readChars? rule, ProvenanceId.readChars? number with
  | some (.rule rule), some (.clause number) =>
      return ⟨rule, number, EncodedLiteral.read head, readBody body⟩
  | _, _ => none

def decode (p : Provenance) (line : ClauseLine) : Except ProvenanceFault GroundClause := do
  let head ← p.decodeTuple line.head.id
  let body ← line.body.mapM (EncodedLiteral.decode p)
  return ⟨UInt32.ofNat line.rule, head, line.head.positive, body⟩

def label (line : ClauseLine) : List Char :=
  (ProvenanceId.rule line.rule).chars ++ (['-'] ++ (ProvenanceId.clause line.number).chars)

def clause (line : ClauseLine) : List Char :=
  line.head.chars ++ (['='] ++ [','].intercalate (line.body.map EncodedLiteral.chars))

def text (line : ClauseLine) : String :=
  s!"R{line.rule}-D{line.number} : " ++ line.head.text ++ "=" ++
    ",".intercalate (line.body.map EncodedLiteral.text)

theorem toList_text (line : ClauseLine) :
    line.text.toList = line.label ++ ([' ', ':', ' '] ++ line.clause) := by
  have hbody : (line.body.map EncodedLiteral.text).map String.toList =
      line.body.map EncodedLiteral.chars := List.map_map
  unfold text label clause
  simp only [String.toList_append, String.toList_intercalate, hbody, List.append_assoc]
  rfl

/-- The numbers fit a machine word and the identifiers are nothing but letters and digits. -/
structure Plain (line : ClauseLine) : Prop where
  rule_lt : line.rule < Text.word64
  number_lt : line.number < Text.word64
  head : line.head.Plain
  body : ∀ l ∈ line.body, l.Plain

theorem readBody_intercalate {body : List EncodedLiteral} (hbody : ∀ l ∈ body, l.Plain) :
    readBody ([','].intercalate (body.map EncodedLiteral.chars)) = body := by
  cases body with
  | nil => rfl
  | cons l body =>
      have hsplit : ([','].intercalate ((l :: body).map EncodedLiteral.chars)).splitOn ',' =
          (l :: body).map EncodedLiteral.chars := by
        apply List.splitOn_intercalate
        · intro piece hpiece
          obtain ⟨m, hm, rfl⟩ := List.mem_map.mp hpiece
          exact (hbody m hm).not_mem_chars (by decide) (by decide)
        · exact List.cons_ne_nil _ _
      have hnonempty :
          ¬ ([','].intercalate ((l :: body).map EncodedLiteral.chars)).isEmpty = true := by
        intro hempty
        rw [List.isEmpty_iff.mp hempty] at hsplit
        exact (hbody l List.mem_cons_self).chars_ne_nil (List.cons.inj hsplit).1.symm
      have hread : (l :: body).map (EncodedLiteral.read ∘ EncodedLiteral.chars) =
          (l :: body).map id :=
        List.map_congr_left (fun m hm => (hbody m hm).read_chars)
      rw [readBody, if_neg hnonempty, hsplit, List.map_map, hread, List.map_id]

theorem Plain.read?_text {line : ClauseLine} (hline : line.Plain) :
    read? line.text = some line := by
  have hrule : ProvenanceId.readChars? (ProvenanceId.rule line.rule).chars =
      some (.rule line.rule) := ProvenanceId.readChars?_chars hline.rule_lt
  have hnumber : ProvenanceId.readChars? (ProvenanceId.clause line.number).chars =
      some (.clause line.number) := ProvenanceId.readChars?_chars hline.number_lt
  have hblank : ' ' ∉ line.label := by
    unfold label
    rw [List.mem_append, List.mem_append, not_or, not_or]
    exact ⟨ProvenanceId.not_mem_chars (by decide), by decide,
      ProvenanceId.not_mem_chars (by decide)⟩
  have hlabel : cutAt? [' ', ':', ' '] line.text.toList = some (line.label, line.clause) := by
    rw [toList_text]
    exact cutAt?_append hblank [':', ' '] line.clause
  have hdash : cutAt? ['-'] line.label =
      some ((ProvenanceId.rule line.rule).chars, (ProvenanceId.clause line.number).chars) :=
    cutAt?_append (ProvenanceId.not_mem_chars (by decide)) [] _
  have hequals : cutAt? ['='] line.clause =
      some (line.head.chars, [','].intercalate (line.body.map EncodedLiteral.chars)) :=
    cutAt?_append (hline.head.not_mem_chars (by decide) (by decide)) [] _
  unfold read?
  simp only [hlabel, hdash, hequals, hrule, hnumber, Option.bind_eq_bind, Option.bind_some,
    hline.head.read_chars, readBody_intercalate hline.body]
  rfl

end ClauseLine

namespace Provenance

variable {p : Provenance}

/-! ## Written clauses -/

theorem tupleId_eq_ok_iff_tupleNode? {t : GroundTuple} {node : String} :
    p.tupleId t = .ok node ↔ p.tupleNode? t = some node :=
  tupleId_eq_ok_iff.trans tupleNode?_eq_some_iff.symm

/-- The identifier of a tuple, and no text for a tuple without one. -/
def nodeOf (p : Provenance) (t : GroundTuple) : String :=
  (p.tupleNode? t).getD ""

def encodeLiteral (p : Provenance) (l : Literal) : EncodedLiteral :=
  ⟨l.positive, p.nodeOf l.tuple⟩

def encodeClause (p : Provenance) (k : Nat) (clause : GroundClause) : ClauseLine :=
  ⟨clause.rule.toNat, k, ⟨clause.headPositive, p.nodeOf clause.head⟩,
    clause.body.map p.encodeLiteral⟩

/-- The tuples of a clause have identifiers. -/
theorem Numbered.tupleId_nodeOf (hp : p.Numbered) {t : GroundTuple}
    (ht : t ∈ ClauseIndex.mentioned p.clauses) : p.tupleId t = .ok (p.nodeOf t) := by
  obtain ⟨node, hnode⟩ := hp.exists_tupleNode ht
  rw [tupleId_eq_ok_iff_tupleNode?, nodeOf, hnode]
  rfl

theorem mem_mentioned_literal {k : Nat} {clause : GroundClause}
    (hclause : p.clauses[k]? = some clause) {l : Literal} (hl : l ∈ clause.body) :
    l.tuple ∈ ClauseIndex.mentioned p.clauses :=
  ClauseIndex.body_subset_mentioned hclause (List.mem_map_of_mem hl)

section Lines

variable (hp : p.Numbered) {k : Nat} {clause : GroundClause} (hclause : p.clauses[k]? = some clause)

include hp hclause

theorem Numbered.clauseDetail_eq :
    p.clauseDetail k = .ok (p.encodeClause k clause).text := by
  have hhead := hp.tupleId_nodeOf (ClauseIndex.head_mem_mentioned hclause)
  have hbody : clause.body.mapM (fun l => do
      return signMark l.positive ++ (← p.tupleId l.tuple)) =
        .ok (clause.body.map (fun l => (p.encodeLiteral l).text)) := by
    apply mapM_answered
    intro l hl
    rw [hp.tupleId_nodeOf (mem_mentioned_literal hclause hl)]
    rfl
  unfold clauseDetail
  rw [hclause]
  refine bind_eq_ok_iff.mpr ⟨_, hhead, bind_eq_ok_iff.mpr ⟨_, hbody, ?_⟩⟩
  unfold encodeClause ClauseLine.text EncodedLiteral.text
  rw [List.map_map, ← String.append_assoc]
  rfl

theorem Numbered.encodeClause_plain (hk : k < Text.word64) : (p.encodeClause k clause).Plain := by
  have hword : clause.rule.toNat < Text.word64 :=
    clause.rule.toNat_lt.trans (by decide)
  have hplain : ∀ {t : GroundTuple} (positive : Bool), t ∈ ClauseIndex.mentioned p.clauses →
      EncodedLiteral.Plain ⟨positive, p.nodeOf t⟩ := by
    intro t positive ht
    obtain ⟨id, _, hid⟩ := tupleId_eq_ok_iff.mp (hp.tupleId_nodeOf ht)
    have hchars : (p.nodeOf t).toList = id.chars := by
      rw [hid, ProvenanceId.text, String.toList_ofList]
    constructor
    case ne_nil =>
      dsimp only
      rw [hchars]
      cases id <;> exact List.cons_ne_nil _ _
    case alphanumeric =>
      intro c hc
      dsimp only at hc
      rw [hchars] at hc
      exact ProvenanceId.isAlphanum_of_mem_chars hc
  refine ⟨hword, hk, hplain _ (ClauseIndex.head_mem_mentioned hclause), ?_⟩
  intro l hl
  obtain ⟨literal, hliteral, rfl⟩ := List.mem_map.mp hl
  exact hplain _ (mem_mentioned_literal hclause hliteral)

/-- Decoding the identifiers of an encoded clause gives the clause. -/
theorem Numbered.decode_encodeClause (hsize : p.Addressable) :
    (p.encodeClause k clause).decode p = .ok clause := by
  have hdecode : ∀ {t : GroundTuple}, t ∈ ClauseIndex.mentioned p.clauses →
      p.decodeTuple (p.nodeOf t) = .ok t := fun ht =>
    (hp.decodesIdentifiers hsize).decode_tupleId _ _ (hp.tupleId_nodeOf ht)
  have hbody : (clause.body.map p.encodeLiteral).mapM (EncodedLiteral.decode p) =
      .ok clause.body := by
    apply mapM_written
    intro l hl
    exact bind_eq_ok_iff.mpr ⟨l.tuple, hdecode (mem_mentioned_literal hclause hl), rfl⟩
  refine bind_eq_ok_iff.mpr ⟨clause.head, hdecode (ClauseIndex.head_mem_mentioned hclause),
    bind_eq_ok_iff.mpr ⟨clause.body, hbody, ?_⟩⟩
  change Except.ok (⟨UInt32.ofNat clause.rule.toNat, _, _, _⟩ : GroundClause) = _
  rw [UInt32.ofNat_toNat]
  rfl

theorem Numbered.unfoldId_clause (hk : k < Text.word64) :
    p.unfoldId (clauseNode k) = .ok (p.encodeClause k clause).text := by
  have hread : ProvenanceId.read (clauseNode k) = .ok (.clause k) := read_text hk
  exact bind_eq_ok_iff.mpr ⟨.clause k, hread, hp.clauseDetail_eq hclause⟩

end Lines

/-! ## Tables -/

/-- The tables of a provenance list every clause once: in the table of heads under the identifier of
its head, with the other clauses of the head in order, and in the table of bodies with the
identifiers of its whole body. -/
structure TabulatesClauses (p : Provenance) : Prop where
  heads_nodup : (p.headToClauses.map Prod.fst).Nodup
  head_lists : ∀ head ids, (head, ids) ∈ p.headToClauses → ids.Sublist p.clauseIds ∧ ids ≠ [] ∧
    ∀ id, id ∈ ids ↔ ∃ k clause, p.clauses[k]? = some clause ∧ p.tupleId clause.head = .ok head ∧
      id = clauseNode k
  one_head : ∀ k clause, p.clauses[k]? = some clause → ∃ head ids,
    p.tupleId clause.head = .ok head ∧ (head, ids) ∈ p.headToClauses ∧ clauseNode k ∈ ids ∧
      ∀ entry ∈ p.headToClauses, clauseNode k ∈ entry.2 → entry = (head, ids)
  clauseIds_nodup : p.clauseIds.Nodup
  bodies : p.clauseToBody.map Prod.fst = p.clauseIds
  body_lists : ∀ k clause, p.clauses[k]? = some clause → ∃ ids,
    p.clauseToBody[k]? = some (clauseNode k, ids) ∧ clause.bodyTuples.mapM p.tupleId = .ok ids

theorem clauseIds_eq (p : Provenance) :
    p.clauseIds = p.clauses.zipIdx.map (fun entry => clauseNode entry.2) :=
  idsBelow_length .clause p.clauses

theorem clauseIds_nodup (p : Provenance) : p.clauseIds.Nodup :=
  List.Nodup.map clauseNode_injective List.nodup_range

theorem clausesOf_sublist (p : Provenance) (t : GroundTuple) :
    (p.clausesOf t).Sublist p.clauseIds := by
  rw [clauseIds_eq]
  exact List.filter_sublist.map _

/-- Tuples of clauses have identifiers one by one, so none is left out. -/
theorem Numbered.mapM_tupleId (hp : p.Numbered) {tuples : List GroundTuple}
    (htuples : tuples ⊆ ClauseIndex.mentioned p.clauses) :
    tuples.mapM p.tupleId = .ok (tuples.filterMap p.tupleNode?) := by
  have hnode : ∀ t ∈ tuples, p.tupleNode? t = some (p.nodeOf t) := fun t ht =>
    tupleId_eq_ok_iff_tupleNode?.mp (hp.tupleId_nodeOf (htuples ht))
  rw [mapM_answered (fun t ht => hp.tupleId_nodeOf (htuples ht)), List.filterMap_congr hnode,
    List.filterMap_eq_map']

/-- The list of a head has the clauses whose heads have its identifier. -/
theorem Numbered.mem_of_mem_headToClauses (hp : p.Numbered) {head : String} {ids : List String}
    (hmem : (head, ids) ∈ p.headToClauses) (id : String) :
    id ∈ ids ↔ ∃ k clause, p.clauses[k]? = some clause ∧ p.tupleId clause.head = .ok head ∧
      id = clauseNode k := by
  obtain ⟨t, _, ht, rfl⟩ := hp.mem_headToClauses.mp hmem
  have hhead : ∀ clause : GroundClause, clause.head = t ↔ p.tupleId clause.head = .ok head := by
    intro clause
    rw [tupleId_eq_ok_iff_tupleNode?]
    constructor
    · rintro rfl
      exact ht
    · intro hnode
      exact hp.tupleNode?_injective hnode ht
  simp only [mem_clausesOf, hhead]

theorem Numbered.tabulatesClauses (hp : p.Numbered) : p.TabulatesClauses := by
  constructor
  case heads_nodup => exact p.headToClauses_keys_nodup
  case head_lists =>
    intro head ids hmem
    obtain ⟨t, ⟨clause, hclause, hhead⟩, _, rfl⟩ := hp.mem_headToClauses.mp hmem
    obtain ⟨k, hk⟩ := List.mem_iff_getElem?.mp hclause
    have hlisted : clauseNode k ∈ p.clausesOf t := mem_clausesOf.mpr ⟨k, clause, hk, hhead, rfl⟩
    exact ⟨p.clausesOf_sublist t, List.ne_nil_of_mem hlisted, hp.mem_of_mem_headToClauses hmem⟩
  case one_head =>
    intro k clause hclause
    have hid := hp.tupleId_nodeOf (ClauseIndex.head_mem_mentioned hclause)
    have hnode := tupleId_eq_ok_iff_tupleNode?.mp hid
    have hmem : (p.nodeOf clause.head, p.clausesOf clause.head) ∈ p.headToClauses :=
      hp.mem_headToClauses.mpr ⟨_, ⟨clause, List.mem_of_getElem? hclause, rfl⟩, hnode, rfl⟩
    refine ⟨_, _, hid, hmem, mem_clausesOf.mpr ⟨k, clause, hclause, rfl, rfl⟩, ?_⟩
    rintro ⟨head, ids⟩ hentry hk
    obtain ⟨j, other, hother, hhead, hsame⟩ := (hp.mem_of_mem_headToClauses hentry _).mp hk
    cases clauseNode_injective hsame
    cases hother.symm.trans hclause
    cases hhead.symm.trans hid
    obtain ⟨t, _, ht, rfl⟩ := hp.mem_headToClauses.mp hentry
    rw [hp.tupleNode?_injective ht hnode]
  case clauseIds_nodup => exact p.clauseIds_nodup
  case bodies =>
    rw [clauseIds_eq, clauseToBody, List.map_map]
    rfl
  case body_lists =>
    intro k clause hclause
    refine ⟨clause.bodyTuples.filterMap p.tupleNode?, ?_,
      hp.mapM_tupleId (fun _ ht => ClauseIndex.body_subset_mentioned hclause ht)⟩
    unfold clauseToBody
    rw [List.getElem?_map, List.getElem?_zipIdx, hclause]
    simp only [Option.map_some, Nat.zero_add]
    rfl

end Provenance

/-! ## Clauses of a builder -/

namespace ProvenanceBuilder

variable {b : ProvenanceBuilder}

/-- Whatever a builder was given before, the provenance it computes for observed tuples lists its
clauses in both tables.  When the numbers fit 64 bits, what each clause identifier unfolds to is
read back as the number and the encoded clause, and decoded to the clause. -/
theorem clauses_read_back (hb : b.Reachable) (observed : List GroundTuple) :
    ∃ p, (b.computeFor observed).provenance = .ok p ∧ p.TabulatesClauses ∧
      (p.Addressable → ∀ k clause, p.clauses[k]? = some clause →
        ∃ text line, p.unfoldId (Provenance.clauseNode k) = .ok text ∧
          ClauseLine.read? text = some line ∧ line.number = k ∧
          line.decode p = .ok clause) := by
  have hp := hb.listed.provenanceFor_numbered observed
  refine ⟨b.provenanceFor observed, rfl, hp.tabulatesClauses, ?_⟩
  intro hsize k clause hclause
  have hk : k < Text.word64 :=
    (List.getElem?_eq_some_iff.mp hclause).1.trans_le hsize.clauses_le
  exact ⟨_, _, hp.unfoldId_clause hclause hk, (hp.encodeClause_plain hclause hk).read?_text, rfl,
    hp.decode_encodeClause hclause hsize⟩

/-! ### A clause with negations and a fact -/

open ClausePruner (letter)

/-- The negated output `B` is derived with a negated input twice, `A` is derived from nothing. -/
def signedFeed : FactFeed :=
  { clauses := [⟨7, letter "B", false, [⟨letter "I", false⟩, ⟨letter "A", true⟩,
        ⟨letter "I", false⟩]⟩,
      ⟨8, letter "A", true, []⟩]
    inputs := [letter "I"]
    outputs := [letter "B"]
    rules := [] }

def signedProvenance : Provenance :=
  { name := "signed"
    clauses := signedFeed.clauses
    inputs := [letter "I"]
    outputs := [letter "B"]
    hidden := [letter "A"]
    tupleIds := [(letter "I", .input 0), (letter "B", .output 0), (letter "A", .hidden 0)]
    rules := [] }

theorem signedFeed_clauses_read_back :
    (ofFeed "signed" false false signedFeed).Reachable ∧ signedProvenance.Addressable ∧
      signedProvenance.TabulatesClauses ∧
      (∀ k clause, signedFeed.clauses[k]? = some clause →
        ∃ text line, signedProvenance.unfoldId (Provenance.clauseNode k) = .ok text ∧
          ClauseLine.read? text = some line ∧ line.decode signedProvenance = .ok clause) ∧
      signedProvenance.unfoldId "D0" = .ok "R7-D0 : NOT O0=NOT I0,H0,NOT I0" ∧
      signedProvenance.unfoldId "D1" = .ok "R8-D1 : H0=" ∧
      signedProvenance.clauseToBody = [("D0", ["I0", "H0", "I0"]), ("D1", [])] := by
  have hsigned : ((ofFeed "signed" false false signedFeed).computeFor [letter "B"]).provenance =
      .ok signedProvenance := by decide +kernel
  have hreachable := ofFeed_reachable "signed" false false signedFeed
  have hsize : signedProvenance.Addressable := ⟨by decide, by decide⟩
  obtain ⟨p, hp, htables, hread⟩ := clauses_read_back hreachable [letter "B"]
  cases hp.symm.trans hsigned
  refine ⟨hreachable, hsize, htables, ?_, by decide +kernel, by decide +kernel, by decide +kernel⟩
  intro k clause hclause
  obtain ⟨text, line, htext, hline, _, hdecode⟩ := hread hsize k clause hclause
  exact ⟨text, line, htext, hline, hdecode⟩

end ProvenanceBuilder

end DerivationBelief

import DerivationBelief.GroundTuple
import DerivationBelief.Proofs.BlankText
import DerivationBelief.Proofs.FaultyRuns
import DerivationBelief.Proofs.TextLines
import Mathlib.Tactic

/-!
# Texts of ground tuples

A text is read as a tuple when, up to blanks around it, it is the name of the relation with an index
list in parentheses.  The index list is blank or has numerals between commas, with blanks around
each.  Reading accepts these texts and no others.  The written form is one of the texts of a tuple,
so writing what was read brings all texts of a tuple to the same form.
-/

namespace DerivationBelief.GroundTuple

open Text

/-! ## Index lists -/

/-- A numeral of an index with blanks around it. -/
def AttributeText (cs : List Char) (a : UInt32) : Prop :=
  ∃ numeral, NumeralOf a.toNat numeral ∧ Padded numeral cs

/-- The texts of an index list.  Without indices there are blanks only, otherwise commas separate
the numerals. -/
inductive AttributesText : List Char → List UInt32 → Prop
  | none {inner : List Char} (hblank : Blank inner) : AttributesText inner []
  | listed {parts : List (List Char)} {attributes : List UInt32} (hne : parts ≠ [])
      (hparts : List.Forall₂ AttributeText parts attributes) :
      AttributesText ([','].intercalate parts) attributes

theorem isBlank_of_mem_numeral {n : Nat} {cs : List Char} (hcs : NumeralOf n cs) {c : Char}
    (hc : c ∈ cs) : isBlank c = false := by
  rcases hcs.mem hc with rfl | hdigit
  · decide
  · exact isBlank_of_isDigit hdigit

theorem tight_numeral {n : Nat} {cs : List Char} (hcs : NumeralOf n cs) : Tight cs :=
  tight_of_no_blank (fun _ hc => isBlank_of_mem_numeral hcs hc)

theorem readAttribute?_eq_some_iff {cs : List Char} {a : UInt32} :
    readAttribute? cs = some a ↔ AttributeText cs a := by
  unfold readAttribute?
  constructor
  · intro hread
    obtain ⟨n, hn, rfl⟩ := Option.map_eq_some_iff.mp hread
    obtain ⟨hnumeral, hlt⟩ := readBelow?_eq_some_iff.mp hn
    rw [← UInt32.toNat_ofNat_of_lt' hlt] at hnumeral
    exact ⟨trim cs, hnumeral, padded_trim cs⟩
  · rintro ⟨numeral, hnumeral, hpadded⟩
    have hread : readBelow? word32 numeral = some a.toNat :=
      readBelow?_eq_some_iff.mpr ⟨hnumeral, a.toNat_lt⟩
    rw [trim_of_padded hpadded (tight_numeral hnumeral), hread, Option.map_some,
      UInt32.ofNat_toNat]

theorem AttributeText.comma_not_mem {a : UInt32} {cs : List Char} (hcs : AttributeText cs a) :
    ',' ∉ cs := by
  obtain ⟨numeral, hnumeral, hpadded⟩ := hcs
  intro hcomma
  rcases hpadded.blank_or_mem hcomma with hblank | hmem
  · exact absurd hblank (by decide)
  · rcases hnumeral.mem hmem with hsign | hdigit
    · exact absurd hsign (by decide)
    · exact absurd hdigit (by decide)

theorem AttributeText.not_blank {a : UInt32} {cs : List Char} (hcs : AttributeText cs a) :
    ¬ Blank cs := by
  obtain ⟨numeral, hnumeral, hpadded⟩ := hcs
  obtain ⟨c, hc⟩ := List.exists_mem_of_ne_nil numeral hnumeral.ne_nil
  intro hblank
  have hmark := isBlank_of_mem_numeral hnumeral hc
  rw [hblank c (hpadded.mem hc)] at hmark
  cases hmark

theorem comma_not_mem_parts {parts : List (List Char)} {attributes : List UInt32}
    (hparts : List.Forall₂ AttributeText parts attributes) : ∀ part ∈ parts, ',' ∉ part := by
  induction hparts with
  | nil => exact List.forall_mem_nil _
  | cons hpart _ ih =>
      rw [List.forall_mem_cons]
      exact ⟨hpart.comma_not_mem, ih⟩

theorem not_blank_intercalate {parts : List (List Char)} {attributes : List UInt32}
    (hne : parts ≠ []) (hparts : List.Forall₂ AttributeText parts attributes) :
    ¬ Blank ([','].intercalate parts) := by
  intro hblank
  cases hparts with
  | nil => exact hne rfl
  | @cons part a parts attributes hpart _ =>
      apply hpart.not_blank
      intro c hc
      apply hblank
      cases parts with
      | nil => simpa using hc
      | cons next parts => simp [List.intercalate_cons_cons, hc]

theorem mapM_readAttribute? {parts : List (List Char)} {attributes : List UInt32} :
    parts.mapM readAttribute? = some attributes ↔ List.Forall₂ AttributeText parts attributes := by
  simp only [mapM_eq_some_iff, readAttribute?_eq_some_iff]

theorem readAttributes?_eq_some_iff {inner : List Char} {attributes : List UInt32} :
    readAttributes? inner = some attributes ↔ AttributesText inner attributes := by
  unfold readAttributes?
  rw [splitAt_eq_splitOn]
  constructor
  · intro hread
    split at hread
    next hblank =>
      cases hread
      exact .none (isEmpty_trim_iff.mp hblank)
    next =>
      rw [← @List.intercalate_splitOn Char inner _ _ ',']
      exact .listed (List.splitOn_ne_nil ',' inner) (mapM_readAttribute?.mp hread)
  · intro hinner
    cases hinner with
    | none hblank => rw [if_pos (isEmpty_trim_iff.mpr hblank)]
    | listed hne hparts =>
        rw [if_neg (fun hempty => not_blank_intercalate hne hparts (isEmpty_trim_iff.mp hempty)),
          List.splitOn_intercalate ',' (comma_not_mem_parts hparts) hne]
        exact mapM_readAttribute?.mpr hparts

/-- The written indices are among the texts of an index list. -/
theorem attributesText_written (attributes : List UInt32) :
    AttributesText ([','].intercalate (attributes.map (fun a => natDigits a.toNat)))
      attributes := by
  cases attributes with
  | nil => exact .none (List.forall_mem_nil _)
  | cons a attributes =>
      apply AttributesText.listed
      · exact List.cons_ne_nil _ _
      · rw [List.forall₂_map_left_iff, List.forall₂_same]
        intro a _
        exact ⟨natDigits a.toNat, numeralOf_natDigits _, Padded.refl _⟩

/-! ## Tuples -/

/-- The name of the relation can be told from what is around it. -/
structure Writable (t : GroundTuple) : Prop where
  ne_nil : t.relation.toList ≠ []
  unopened : '(' ∉ t.relation.toList
  starts : ∀ c ∈ t.relation.toList.head?, isBlank c = false

def enclose (relation inner : List Char) : List Char :=
  relation ++ '(' :: (inner ++ [')'])

/-- The texts of a tuple: the relation and its indices in parentheses, with blanks around them. -/
structure TextOf (t : GroundTuple) (cs : List Char) : Prop where
  writable : t.Writable
  enclosed : ∃ inner, AttributesText inner t.attributes ∧
    Padded (enclose t.relation.toList inner) cs

theorem Writable.tight_enclose {t : GroundTuple} (ht : t.Writable) (inner : List Char) :
    Tight (enclose t.relation.toList inner) where
  starts := by
    unfold enclose
    rw [List.head?_append_of_ne_nil _ ht.ne_nil]
    exact ht.starts
  ends := by
    have hlast : (enclose t.relation.toList inner).getLast? = some ')' := by
      unfold enclose
      rw [← List.cons_append, ← List.append_assoc, List.getLast?_concat]
    rw [hlast]
    intro c hc
    cases hc
    decide

/-- The first opening parenthesis ends the relation. -/
theorem cut_enclose {relation : List Char} (hrelation : '(' ∉ relation) (inner : List Char) :
    (enclose relation inner).takeWhile (· ≠ '(') = relation ∧
      (enclose relation inner).dropWhile (· ≠ '(') = '(' :: (inner ++ [')']) := by
  have hall : ∀ c ∈ relation, decide (c ≠ '(') = true := by
    intro c hc
    exact decide_eq_true (fun heq => hrelation (heq ▸ hc))
  unfold enclose
  rw [List.takeWhile_append_of_pos hall, List.dropWhile_append_of_pos hall]
  simp

theorem eq_enclose_of_cut {cs rest : List Char} {c : Char}
    (hcut : cs.dropWhile (· ≠ '(') = c :: rest) (hlast : rest.getLast? = some ')') :
    cs = enclose (cs.takeWhile (· ≠ '(')) rest.dropLast := by
  have hopen : c = '(' := by
    have hstop := List.head?_dropWhile_not (fun d : Char => decide (d ≠ '(')) cs
    rw [hcut] at hstop
    simpa using hstop
  have hrest : rest.dropLast ++ [')'] = rest := List.dropLast_append_getLast? _ hlast
  unfold enclose
  rw [hrest]
  subst hopen
  rw [← hcut, List.takeWhile_append_dropWhile]

theorem readChars?_of_textOf {t : GroundTuple} {cs : List Char} (hcs : t.TextOf cs) :
    readChars? cs = some t := by
  obtain ⟨ht, inner, hinner, hpadded⟩ := hcs
  obtain ⟨hfront, hbehind⟩ := cut_enclose ht.unopened inner
  unfold readChars?
  simp only [trim_of_padded hpadded (ht.tight_enclose inner), hfront, hbehind]
  split
  next hnone => cases hnone
  next hempty _ => exact absurd hempty ht.ne_nil
  next hcons _ =>
    cases hcons
    rw [if_pos List.getLast?_concat, List.dropLast_concat, readAttributes?_eq_some_iff.mpr hinner,
      Option.map_some, String.ofList_toList]

theorem textOf_of_readChars? {t : GroundTuple} {cs : List Char} (hread : readChars? cs = some t) :
    t.TextOf cs := by
  unfold readChars? at hread
  dsimp only at hread
  split at hread
  next => cases hread
  next => cases hread
  next hcut hne =>
    split at hread
    next hlast =>
      obtain ⟨attributes, hattributes, rfl⟩ := Option.map_eq_some_iff.mp hread
      have htext := eq_enclose_of_cut hcut hlast
      have htight := tight_trim cs
      rw [htext] at htight
      refine ⟨⟨?_, ?_, ?_⟩, _, readAttributes?_eq_some_iff.mp hattributes, ?_⟩
      · rw [String.toList_ofList]
        exact hne
      · rw [String.toList_ofList]
        intro hopen
        simpa using List.mem_takeWhile_imp hopen
      · rw [String.toList_ofList]
        have hstarts := htight.starts
        unfold enclose at hstarts
        rwa [List.head?_append_of_ne_nil _ hne] at hstarts
      · rw [String.toList_ofList, ← htext]
        exact padded_trim cs
    next => cases hread

theorem readChars?_eq_some_iff {cs : List Char} {t : GroundTuple} :
    readChars? cs = some t ↔ t.TextOf cs :=
  ⟨textOf_of_readChars?, readChars?_of_textOf⟩

theorem read_eq_ok_iff {input : String} {t : GroundTuple} :
    read input = .ok t ↔ t.TextOf input.toList := by
  rw [← readChars?_eq_some_iff]
  unfold read
  cases readChars? input.toList <;> simp

theorem read_eq_error_iff {input : String} :
    read input = .error (.malformedTuple input) ↔ ¬ ∃ t : GroundTuple, t.TextOf input.toList := by
  simp only [← readChars?_eq_some_iff]
  unfold read
  cases readChars? input.toList <;> simp

theorem textOf_text {t : GroundTuple} (ht : t.Writable) : t.TextOf t.text.toList := by
  refine ⟨ht, _, attributesText_written t.attributes, ?_⟩
  unfold text
  rw [String.toList_ofList]
  exact Padded.refl _

theorem read_text {t : GroundTuple} (ht : t.Writable) : read t.text = .ok t :=
  read_eq_ok_iff.mpr (textOf_text ht)

/-- A tuple whose relation can be told from what is around it is read back from its written form.
Reading accepts the texts of such tuples and no others, and what was read is written alike exactly
when it is the same tuple. -/
theorem texts_read_back :
    (∀ t : GroundTuple, t.Writable → read t.text = .ok t) ∧
      (∀ (input : String) (t : GroundTuple), read input = .ok t →
        t.Writable ∧ read t.text = .ok t) ∧
      (∀ (input other : String) (t u : GroundTuple), read input = .ok t → read other = .ok u →
        (t.text = u.text ↔ t = u)) ∧
      (∀ (input : String) (t : GroundTuple), read input = .ok t ↔ t.TextOf input.toList) ∧
      ∀ input : String, read input = .error (.malformedTuple input) ↔
        ¬ ∃ t : GroundTuple, t.TextOf input.toList := by
  have hwritable : ∀ (input : String) (t : GroundTuple), read input = .ok t → t.Writable :=
    fun input t hread => (read_eq_ok_iff.mp hread).writable
  refine ⟨fun t => read_text, ?_, ?_, fun input t => read_eq_ok_iff, fun input => read_eq_error_iff⟩
  · intro input t hread
    have ht := hwritable input t hread
    exact ⟨ht, read_text ht⟩
  · intro input other t u hread hother
    constructor
    · intro hsame
      have hback := read_text (hwritable input t hread)
      rw [hsame, read_text (hwritable other u hother), Except.ok.injEq] at hback
      exact hback.symm
    · exact congrArg text

def spacedTuple : GroundTuple :=
  ⟨"R S", [2, 7, 4294967295]⟩

/-- Blanks around the tuple, in its name and around the indices, a sign, zeros in front, and the
largest index. -/
theorem spacedTuple_reads_back :
    read "\u2003R S( +2 ,\t007,4294967295\u00a0) \n" = .ok spacedTuple ∧ spacedTuple.Writable ∧
      spacedTuple.text = "R S(2,7,4294967295)" ∧ read spacedTuple.text = .ok spacedTuple ∧
      ¬ ∃ t : GroundTuple, t.TextOf "R(4294967296)".toList := by
  obtain ⟨_, hback, _, _, hrefused⟩ := texts_read_back
  have hread : read "\u2003R S( +2 ,\t007,4294967295\u00a0) \n" = .ok spacedTuple := by rfl
  obtain ⟨hwritable, hwritten⟩ := hback _ spacedTuple hread
  exact ⟨hread, hwritable, by decide +kernel, hwritten, (hrefused _).mp (by rfl)⟩

end DerivationBelief.GroundTuple

import DerivationBelief.FactorGraphText
import DerivationBelief.Proofs.FaultyRuns
import DerivationBelief.Proofs.TextLines
import Mathlib.Tactic

/-!
# Reading a factor graph undoes writing it

Every line that the reader counts on starts with a number, so none of them is blank or a comment and
the blank lines between factors are the only ones passed over.  From there on each reading step takes
off the lines that one writing step has put there.
-/

namespace DerivationBelief

namespace Text

/-- A line that is passed on as it stands: it ends nowhere inside, has no blanks around it, and is
neither blank nor a comment. -/
structure Standing (line : List Char) : Prop where
  oneLine : OneLine line
  trim_eq : trim line = line
  counts : line ≠ [] ∧ line.head? ≠ some '#'

/-- A line of words, the first of which is a number. -/
def NumberFirst (line : List Char) : Prop :=
  ∃ n pieces, line = joinWith ' ' (natDigits n :: pieces) ∧ ∀ piece ∈ pieces, IsWord piece

theorem isWord_of_numbers {ns : List Nat} : ∀ piece ∈ ns.map natDigits, IsWord piece := by
  intro piece hpiece
  obtain ⟨n, _, rfl⟩ := List.mem_map.mp hpiece
  exact natDigits_isWord n

namespace NumberFirst

theorem pieces {line : List Char} (hline : NumberFirst line) :
    ∃ n pieces, line = joinWith ' ' (natDigits n :: pieces) ∧
      ∀ piece ∈ natDigits n :: pieces, IsWord piece := by
  obtain ⟨n, pieces, hjoin, hpieces⟩ := hline
  exact ⟨n, pieces, hjoin, List.forall_mem_cons.mpr ⟨natDigits_isWord n, hpieces⟩⟩

theorem oneLine {line : List Char} (hline : NumberFirst line) : OneLine line := by
  obtain ⟨n, pieces, rfl, hpieces⟩ := hline.pieces
  exact oneLine_joinWith (by decide) (fun piece hpiece => (hpieces piece hpiece).oneLine)

theorem trim_eq {line : List Char} (hline : NumberFirst line) : trim line = line := by
  obtain ⟨n, pieces, rfl, hpieces⟩ := hline.pieces
  exact trim_joinWith ' ' hpieces

/-- Such a line is neither blank nor a comment. -/
theorem counts {line : List Char} (hline : NumberFirst line) :
    line ≠ [] ∧ line.head? ≠ some '#' := by
  obtain ⟨n, pieces, rfl, _⟩ := hline
  have hhead := head?_joinWith ' ' (natDigits_ne_nil n) pieces
  have hdigit : ∀ c, (natDigits n).head? = some c → c.isDigit = true := by
    intro c hc
    exact isDigit_of_mem_natDigits (List.mem_of_head? hc)
  constructor
  · intro hnil
    rw [hnil, List.head?_nil, eq_comm, List.head?_eq_none_iff] at hhead
    exact natDigits_ne_nil n hhead
  · intro hcomment
    rw [hhead] at hcomment
    exact absurd (hdigit '#' hcomment) (by decide)

theorem standing {line : List Char} (hline : NumberFirst line) : Standing line :=
  ⟨hline.oneLine, hline.trim_eq, hline.counts⟩

theorem numbers {ns : List Nat} (hne : ns ≠ []) : NumberFirst (numbersLine ' ' ns) := by
  cases ns with
  | nil => exact absurd rfl hne
  | cons n ns => exact ⟨n, ns.map natDigits, rfl, isWord_of_numbers⟩

theorem number (n : Nat) : NumberFirst (natDigits n) :=
  ⟨n, [], rfl, by simp⟩

end NumberFirst

end Text

/-! ## Reading lines -/

namespace LineReader

/-- The texts that are still to be read. -/
def pending (r : LineReader) : List (List Char) :=
  r.rest.map NumberedLine.text

theorem pending_ofText (label : String) {ls : List (List Char)}
    (hls : ∀ line ∈ ls, line = [] ∨ Text.Standing line) :
    (ofText label (String.ofList (Text.unlines ls))).pending = ls.filter (fun line => line ≠ []) := by
  have hlines : Text.lines (Text.unlines ls) = ls := by
    apply Text.lines_unlines
    intro line hline
    rcases hls line hline with rfl | hstanding
    · exact fun c hc => absurd hc List.not_mem_nil
    · exact hstanding.oneLine
  have hnumbered : ∀ (rest : List (List Char)) (start : Nat),
      (∀ line ∈ rest, line = [] ∨ Text.Standing line) →
      (((rest.zipIdx start).map (fun entry =>
          NumberedLine.mk (entry.2 + 1) (Text.trim entry.1))).filter
        (fun line => line.text ≠ [] ∧ line.text.head? ≠ some '#')).map NumberedLine.text =
        rest.filter (fun line => line ≠ []) := by
    intro rest
    induction rest with
    | nil => exact fun _ _ => rfl
    | cons line rest ih =>
        intro start hrest
        rw [List.forall_mem_cons] at hrest
        have htail := ih (start + 1) hrest.2
        rw [List.zipIdx_cons, List.map_cons]
        rcases hrest.1 with rfl | hstanding
        · rw [List.filter_cons_of_neg (by simp [Text.trim]), List.filter_cons_of_neg (by simp)]
          exact htail
        · have hcounts := hstanding.counts
          rw [hstanding.trim_eq, List.filter_cons_of_pos (by simpa using hcounts),
            List.filter_cons_of_pos (by simpa using hcounts.1), List.map_cons, htail]
  unfold pending ofText
  rw [String.toList_ofList, hlines]
  exact hnumbered ls 0 hls

variable {r : LineReader} {text : List Char} {texts : List (List Char)}

theorem line_of_pending (hr : r.pending = text :: texts) :
    ∃ line next, r.line = .ok (line, next) ∧ line.text = text ∧ next.pending = texts := by
  obtain ⟨label, lineCount, rest⟩ := r
  cases rest with
  | nil => cases hr
  | cons line rest =>
      obtain ⟨htext, hrest⟩ := List.cons.inj hr
      exact ⟨line, ⟨label, lineCount, rest⟩, rfl, htext, hrest⟩

theorem number_of_pending {n : Nat} (hn : n < Text.word64)
    (hr : r.pending = Text.natDigits n :: texts) :
    ∃ next, r.number = .ok (n, next) ∧ next.pending = texts := by
  obtain ⟨line, next, hline, htext, hnext⟩ := line_of_pending hr
  refine ⟨next, ?_, hnext⟩
  unfold number
  rw [hline]
  simp only [bind, Except.bind, htext, Text.readBelow?_natDigits hn]
  rfl

theorem numbers_of_pending {separator : Char} (hseparator : Text.isBlank separator = true)
    {ns : List Nat} (hns : ∀ n ∈ ns, n < Text.word64)
    (hr : r.pending = numbersLine separator ns :: texts) :
    ∃ place next, r.numbers = .ok (ns, place, next) ∧ next.pending = texts := by
  obtain ⟨line, next, hline, htext, hnext⟩ := line_of_pending hr
  refine ⟨line.number, next, ?_, hnext⟩
  have hwords : Text.words line.text = ns.map Text.natDigits := by
    rw [htext]
    exact Text.words_joinWith hseparator Text.isWord_of_numbers
  unfold numbers
  rw [hline]
  simp only [bind, Except.bind, hwords]
  rw [mapM_written (fun n hn => by simp only [Text.readBelow?_natDigits (hns n hn)])]
  rfl

/-- The reader takes off the lines that were written for the item, and answers with the item. -/
def Takes {β : Type} (read : LineReader → Except SolverFault (β × LineReader))
    (written : List (List Char)) (item : β) : Prop :=
  ∀ r texts, r.pending = written ++ texts →
    ∃ next, read r = .ok (item, next) ∧ next.pending = texts

/-- Reading so many items takes off what was written for each of them. -/
theorem Takes.repeated {γ β : Type} {read : LineReader → Except SolverFault (β × LineReader)}
    {write : γ → List (List Char)} {item : γ → β} {entries : List γ}
    (hentries : ∀ entry ∈ entries, Takes read (write entry) (item entry)) :
    Takes (repeated read entries.length) (entries.flatMap write) (entries.map item) := by
  induction entries with
  | nil => exact fun r texts hr => ⟨r, rfl, hr⟩
  | cons entry entries ih =>
      rw [List.forall_mem_cons] at hentries
      intro r texts hr
      rw [List.flatMap_cons, List.append_assoc] at hr
      obtain ⟨next, hread, hnext⟩ := hentries.1 r _ hr
      obtain ⟨last, hrest, hlast⟩ := ih hentries.2 next texts hnext
      refine ⟨last, ?_, hlast⟩
      simp only [List.length_cons, LineReader.repeated, bind, Except.bind, hread, hrest]
      rfl

end LineReader

/-! ## Reading factors -/

namespace Factor

variable {α : Type} [Numeral α]

/-- A factor whose lines can be told apart and whose numbers fit the fields they are read into. -/
structure Writable (f : Factor Nat α) : Prop where
  vars_ne_nil : f.vars ≠ []
  cards_length : f.cards.length = f.vars.length
  count_lt : f.vars.length < Text.word64
  vars_lt : ∀ v ∈ f.vars, v < Text.word64
  cards_lt : ∀ card ∈ f.cards, card < Text.word64
  entryCount_lt : f.entries.length < Text.word64
  states_lt : ∀ entry ∈ f.entries, entry.1 < Text.word64
  weights_words : ∀ entry ∈ f.entries, Text.IsWord (Numeral.text entry.2).toList
  weights_read : ∀ entry ∈ f.entries,
    Numeral.read? (Numeral.text entry.2).toList = some entry.2

theorem entryLine_eq (entry : Nat × α) :
    entryLine entry = Text.joinWith ' '
      [Text.natDigits entry.1, (Numeral.text entry.2).toList] := rfl

theorem entryLine_taken {entry : Nat × α} (hstate : entry.1 < Text.word64)
    (hword : Text.IsWord (Numeral.text entry.2).toList)
    (hread : Numeral.read? (Numeral.text entry.2).toList = some entry.2) :
    LineReader.Takes readEntry [entryLine entry] entry := by
  intro r texts hr
  obtain ⟨line, next, hline, htext, hnext⟩ := LineReader.line_of_pending hr
  refine ⟨next, ?_, hnext⟩
  have hwords : Text.words line.text =
      [Text.natDigits entry.1, (Numeral.text entry.2).toList] := by
    rw [htext, entryLine_eq]
    apply Text.words_joinWith (by decide)
    rw [List.forall_mem_cons, List.forall_mem_singleton]
    exact ⟨Text.natDigits_isWord entry.1, hword⟩
  unfold readEntry
  rw [hline]
  simp only [bind, Except.bind, hwords, readEntryWords?, Text.readBelow?_natDigits hstate, hread,
    Option.bind]
  rfl

namespace Writable

variable {f : Factor Nat α}

theorem lines_numberFirst (hf : f.Writable) : ∀ line ∈ f.lines, Text.NumberFirst line := by
  have hcards : f.cards ≠ [] := by
    intro hnil
    have hlength := hf.cards_length
    rw [hnil, List.length_nil, eq_comm, List.length_eq_zero_iff] at hlength
    exact hf.vars_ne_nil hlength
  unfold lines
  rw [List.forall_mem_append]
  constructor
  · simp only [List.forall_mem_cons]
    exact ⟨.number _, .numbers hf.vars_ne_nil, .numbers hcards, .number _,
      fun _ hnone => absurd hnone List.not_mem_nil⟩
  · intro line hline
    obtain ⟨entry, hentry, rfl⟩ := List.mem_map.mp hline
    refine ⟨entry.1, [(Numeral.text entry.2).toList], entryLine_eq entry, ?_⟩
    rw [List.forall_mem_singleton]
    exact hf.weights_words entry hentry

/-- Reading a factor takes off the lines that were written for it. -/
theorem taken (hf : f.Writable) : LineReader.Takes readFactor f.lines f := by
  intro r texts hr
  have hlines : f.lines ++ texts = Text.natDigits f.vars.length :: numbersLine ' ' f.vars ::
      numbersLine ' ' f.cards :: Text.natDigits f.entries.length ::
        (f.entries.flatMap (fun entry => [entryLine entry]) ++ texts) := by
    rw [← List.map_eq_flatMap]
    rfl
  rw [hlines] at hr
  obtain ⟨first, hcount, hfirst⟩ := LineReader.number_of_pending hf.count_lt hr
  obtain ⟨_, second, hvars, hsecond⟩ := LineReader.numbers_of_pending rfl hf.vars_lt hfirst
  obtain ⟨place, third, hcards, hthird⟩ := LineReader.numbers_of_pending rfl hf.cards_lt hsecond
  obtain ⟨fourth, hentryCount, hfourth⟩ :=
    LineReader.number_of_pending hf.entryCount_lt hthird
  have hentries : ∀ entry ∈ f.entries,
      LineReader.Takes readEntry [entryLine entry] entry := fun entry hentry =>
    entryLine_taken (hf.states_lt entry hentry) (hf.weights_words entry hentry)
      (hf.weights_read entry hentry)
  have htaken := LineReader.Takes.repeated hentries
  rw [List.map_id'] at htaken
  obtain ⟨last, hread, hlast⟩ := htaken fourth texts hfourth
  refine ⟨last, ?_, hlast⟩
  have hagree : ¬ (f.vars.length ≠ f.vars.length ∨ f.cards.length ≠ f.vars.length) := by
    simp [hf.cards_length]
  unfold readFactor
  rw [hcount]
  simp only [bind, Except.bind, hvars, hcards, if_neg hagree, hentryCount, hread]
  rfl

end Writable

/-- Reading the text of writable factors gives the factors, in order. -/
theorem parseAll_of_writable {factors : List (Factor Nat α)}
    (hcount : factors.length < Text.word64) (hfactors : ∀ f ∈ factors, f.Writable)
    (label : String) :
    parseAll label (String.ofList (Text.unlines (fileLines factors))) = .ok factors := by
  have hlines : ∀ line ∈ fileLines factors, line = [] ∨ Text.Standing line := by
    unfold fileLines
    rw [List.forall_mem_cons]
    refine ⟨Or.inr (Text.NumberFirst.number _).standing, ?_⟩
    intro line hline
    obtain ⟨f, hf, hmem⟩ := List.mem_flatMap.mp hline
    rcases List.mem_cons.mp hmem with hblank | hwritten
    · exact Or.inl hblank
    · exact Or.inr ((hfactors f hf).lines_numberFirst line hwritten).standing
  have hkept : (fileLines factors).filter (fun line => line ≠ []) =
      Text.natDigits factors.length :: (factors.flatMap lines ++ []) := by
    unfold fileLines
    rw [List.filter_cons_of_pos (by simpa using Text.natDigits_ne_nil factors.length),
      List.filter_flatMap, List.append_nil]
    congr 1
    apply List.flatMap_congr
    intro f hf
    rw [List.filter_cons_of_neg (by simp), List.filter_eq_self]
    intro line hline
    simpa using ((hfactors f hf).lines_numberFirst line hline).counts.1
  have hpending := LineReader.pending_ofText label hlines
  rw [hkept] at hpending
  obtain ⟨next, hnumber, hnext⟩ := LineReader.number_of_pending hcount hpending
  have htaken := LineReader.Takes.repeated (fun f hf => (hfactors f hf).taken)
  rw [List.map_id'] at htaken
  obtain ⟨last, hread, _⟩ := htaken next [] hnext
  unfold parseAll
  rw [hnumber]
  simp only [bind, Except.bind, hread]
  rfl

end Factor

end DerivationBelief

import DerivationBelief.Proofs.BlankText
import DerivationBelief.Proofs.UnsignedNumeral
import DerivationBelief.TextLines
import Mathlib.Tactic

/-!
# Words and lines that were joined are found again

Words hold no blank, so a line that joins them with blanks falls apart into the same words and has
nothing to trim.  Lines hold no line feed and no carriage return, so a text made of them falls apart
into the same lines.
-/

namespace DerivationBelief.Text

/-- A nonempty run of characters without a blank. -/
structure IsWord (cs : List Char) : Prop where
  ne_nil : cs ≠ []
  no_blank : ∀ c ∈ cs, isBlank c = false

/-! ## Words -/

theorem foldr_word {word : List Char} (hword : IsWord word) (pieces : List (List Char)) :
    word.foldr
        (fun c (state : List (List Char) × Bool) =>
          if isBlank c then (state.1, false)
          else if state.2 then (extendHead c state.1, true)
          else ([c] :: state.1, true))
        (pieces, false) = (word :: pieces, true) := by
  obtain ⟨hne, hblank⟩ := hword
  induction word with
  | nil => exact absurd rfl hne
  | cons c word ih =>
      rw [List.forall_mem_cons] at hblank
      cases word with
      | nil => simp [hblank.1]
      | cons d word =>
          rw [List.foldr_cons, ih (List.cons_ne_nil d word) hblank.2]
          simp [hblank.1, extendHead]

theorem words_of_isWord {word : List Char} (hword : IsWord word) : words word = [word] :=
  congrArg Prod.fst (foldr_word hword [])

theorem words_append_blank {word : List Char} (hword : IsWord word) {blank : Char}
    (hblank : isBlank blank = true) (rest : List Char) :
    words (word ++ blank :: rest) = word :: words rest := by
  unfold words
  rw [List.foldr_append, List.foldr_cons, if_pos hblank, foldr_word hword]

theorem words_joinWith {separator : Char} (hseparator : isBlank separator = true)
    {pieces : List (List Char)} (hpieces : ∀ piece ∈ pieces, IsWord piece) :
    words (joinWith separator pieces) = pieces := by
  induction pieces with
  | nil => rfl
  | cons piece pieces ih =>
      rw [List.forall_mem_cons] at hpieces
      cases pieces with
      | nil => exact words_of_isWord hpieces.1
      | cons next pieces =>
          change words (piece ++ separator :: joinWith separator (next :: pieces)) = _
          rw [words_append_blank hpieces.1 hseparator, ih hpieces.2]

/-! ## Trimming -/

theorem joinWith_starts (separator : Char) {pieces : List (List Char)} (hne : pieces ≠ []) :
    ∃ rest, joinWith separator pieces = pieces.head hne ++ rest := by
  cases pieces with
  | nil => exact absurd rfl hne
  | cons piece pieces =>
      cases pieces with
      | nil => exact ⟨[], (List.append_nil piece).symm⟩
      | cons next pieces => exact ⟨separator :: joinWith separator (next :: pieces), rfl⟩

theorem joinWith_ends (separator : Char) {pieces : List (List Char)} (hne : pieces ≠ []) :
    ∃ before, joinWith separator pieces = before ++ pieces.getLast hne := by
  induction pieces with
  | nil => exact absurd rfl hne
  | cons piece pieces ih =>
      cases pieces with
      | nil => exact ⟨[], rfl⟩
      | cons next pieces =>
          obtain ⟨before, hbefore⟩ := ih (List.cons_ne_nil next pieces)
          refine ⟨piece ++ separator :: before, ?_⟩
          change piece ++ separator :: joinWith separator (next :: pieces) = _
          rw [hbefore, List.getLast_cons (List.cons_ne_nil next pieces), List.append_assoc]
          rfl

/-- Words that are joined have no blanks around them. -/
theorem tight_joinWith (separator : Char) {pieces : List (List Char)}
    (hpieces : ∀ piece ∈ pieces, IsWord piece) : Tight (joinWith separator pieces) := by
  by_cases hne : pieces = []
  · subst hne
    exact tight_of_no_blank (List.forall_mem_nil _)
  · obtain ⟨rest, hstart⟩ := joinWith_starts separator hne
    obtain ⟨before, hend⟩ := joinWith_ends separator hne
    have hfirst := hpieces _ (List.head_mem hne)
    have hlast := hpieces _ (List.getLast_mem hne)
    constructor
    · rw [hstart, List.head?_append_of_ne_nil _ hfirst.ne_nil]
      exact (tight_of_no_blank hfirst.no_blank).starts
    · rw [hend, List.getLast?_append_of_ne_nil _ hlast.ne_nil]
      exact (tight_of_no_blank hlast.no_blank).ends

theorem trim_joinWith (separator : Char) {pieces : List (List Char)}
    (hpieces : ∀ piece ∈ pieces, IsWord piece) :
    trim (joinWith separator pieces) = joinWith separator pieces :=
  (tight_joinWith separator hpieces).trim_eq

theorem IsWord.trim_eq {word : List Char} (hword : IsWord word) : trim word = word :=
  (tight_of_no_blank hword.no_blank).trim_eq

theorem head?_joinWith (separator : Char) {piece : List Char} (hpiece : piece ≠ [])
    (pieces : List (List Char)) :
    (joinWith separator (piece :: pieces)).head? = piece.head? := by
  obtain ⟨rest, hstart⟩ := joinWith_starts separator (List.cons_ne_nil piece pieces)
  rw [hstart, List.head_cons, List.head?_append_of_ne_nil _ hpiece]

/-! ## Lines -/

/-- A line that ends nowhere before its line feed. -/
def OneLine (line : List Char) : Prop :=
  ∀ c ∈ line, c ≠ '\n' ∧ c ≠ '\r'

theorem foldr_addToLines {line : List Char} (hline : OneLine line) (pieces : List (List Char))
    (ended : Bool) :
    (line.foldr addToLines ([] :: pieces, ended)).1 = line :: pieces := by
  induction line with
  | nil => rfl
  | cons c line ih =>
      have hrest := ih (fun d hd => hline d (List.mem_cons_of_mem _ hd))
      obtain ⟨hfeed, hreturn⟩ := hline c List.mem_cons_self
      rw [List.foldr_cons]
      simp [addToLines, hfeed, hreturn, hrest, extendHead]

theorem lines_unlines {ls : List (List Char)} (hls : ∀ line ∈ ls, OneLine line) :
    lines (unlines ls) = ls := by
  induction ls with
  | nil => rfl
  | cons line ls ih =>
      rw [List.forall_mem_cons] at hls
      have hrest : ((unlines ls).foldr addToLines ([], false)).1 = ls := ih hls.2
      change ((line ++ ['\n'] ++ unlines ls).foldr addToLines ([], false)).1 = _
      rw [List.append_assoc, List.foldr_append, List.singleton_append, List.foldr_cons]
      have hfeed : addToLines '\n' ((unlines ls).foldr addToLines ([], false)) =
          ([] :: ls, true) := by
        simp [addToLines, hrest]
      rw [hfeed, foldr_addToLines hls.1]

theorem IsWord.oneLine {word : List Char} (hword : IsWord word) : OneLine word := by
  intro c hc
  have hblank := hword.no_blank c hc
  constructor
  · rintro rfl
    exact absurd hblank (by decide)
  · rintro rfl
    exact absurd hblank (by decide)

theorem oneLine_joinWith {separator : Char} (hseparator : separator ≠ '\n' ∧ separator ≠ '\r')
    {pieces : List (List Char)} (hpieces : ∀ piece ∈ pieces, OneLine piece) :
    OneLine (joinWith separator pieces) := by
  induction pieces with
  | nil => exact fun c hc => absurd hc List.not_mem_nil
  | cons piece pieces ih =>
      rw [List.forall_mem_cons] at hpieces
      cases pieces with
      | nil => exact hpieces.1
      | cons next pieces =>
          intro c hc
          change c ∈ piece ++ separator :: joinWith separator (next :: pieces) at hc
          rw [List.mem_append, List.mem_cons] at hc
          rcases hc with hfirst | rfl | hrest
          · exact hpieces.1 c hfirst
          · exact hseparator
          · exact ih hpieces.2 c hrest

/-! ## Columns -/

theorem joinWith_eq_intercalate (separator : Char) (pieces : List (List Char)) :
    joinWith separator pieces = [separator].intercalate pieces := by
  induction pieces with
  | nil => rfl
  | cons piece pieces ih =>
      cases pieces with
      | nil => simp [joinWith]
      | cons next pieces =>
          rw [List.intercalate_cons_cons, ← ih, List.append_assoc]
          rfl

theorem splitAt_joinWith {separator : Char} {pieces : List (List Char)} (hne : pieces ≠ [])
    (hpieces : ∀ piece ∈ pieces, separator ∉ piece) :
    splitAt separator (joinWith separator pieces) = pieces := by
  rw [splitAt_eq_splitOn, joinWith_eq_intercalate]
  exact List.splitOn_intercalate separator hpieces hne

/-! ## Numbers as words -/

theorem isBlank_of_isDigit {c : Char} (hc : c.isDigit = true) : isBlank c = false := by
  rw [Char.isDigit_iff_toNat] at hc
  have hlow : 48 ≤ c.toNat := hc.1
  have hhigh : c.toNat ≤ 57 := hc.2
  unfold isBlank inRanges
  rw [List.any_eq_false]
  intro range hrange
  simp only [blankRanges, List.mem_cons, List.not_mem_nil, or_false] at hrange
  rcases hrange with rfl | rfl | rfl | rfl | rfl | rfl | rfl | rfl | rfl | rfl <;>
    simp <;> omega

theorem natDigits_isWord (n : Nat) : IsWord (natDigits n) where
  ne_nil := natDigits_ne_nil n
  no_blank := fun _ hc => isBlank_of_isDigit (isDigit_of_mem_natDigits hc)

end DerivationBelief.Text

import DerivationBelief.EvidenceTable
import DerivationBelief.Proofs.FactorGraphText
import Mathlib.Tactic

/-!
# Tables of evidence are read back

Columns hold no tab and rows hold no line feed, so the text of a table falls apart into what was
written for each variable and for each state.  A table whose variables fit their field is read back
as it was written, and no table is read back as another one.
-/

namespace DerivationBelief.EvidenceTable

open Text

/-- Every row has a state, or none, for each variable. -/
def Rectangular (t : EvidenceTable) : Prop :=
  ∀ row ∈ t.rows, row.length = t.vars.length

variable {label : String}

/-! ## The variables -/

theorem tab_not_mem_natDigits (v : Nat) : '\t' ∉ natDigits v := by
  intro htab
  have hblank := (natDigits_isWord v).no_blank '\t' htab
  exact absurd hblank (by decide)

theorem splitAt_header {vars : List Nat} (hvars : vars ≠ []) :
    splitAt '\t' (numbersLine '\t' vars) = vars.map natDigits := by
  apply splitAt_joinWith
  · simpa using hvars
  · intro piece hpiece
    obtain ⟨v, _, rfl⟩ := List.mem_map.mp hpiece
    exact tab_not_mem_natDigits v

theorem trim_header {vars : List Nat} (hvars : vars ≠ []) :
    (trim (numbersLine '\t' vars)).isEmpty = false := by
  unfold numbersLine
  rw [trim_joinWith '\t' isWord_of_numbers]
  cases vars with
  | nil => exact absurd rfl hvars
  | cons v vars =>
      have hhead := head?_joinWith '\t' (natDigits_ne_nil v) (vars.map natDigits)
      rw [List.isEmpty_eq_false_iff, List.map_cons]
      intro hnil
      rw [hnil, List.head?_nil, eq_comm, List.head?_eq_none_iff] at hhead
      exact natDigits_ne_nil v hhead

theorem readVars_header {vars : List Nat} (hvars : ∀ v ∈ vars, v < word64) :
    readVars label (numbersLine '\t' vars) = .ok vars := by
  unfold readVars
  by_cases hnil : vars = []
  · subst hnil
    rfl
  · rw [trim_header hnil, if_neg Bool.false_ne_true, splitAt_header hnil]
    apply mapM_written
    intro v hv
    rw [(natDigits_isWord v).trim_eq, readBelow?_natDigits (hvars v hv)]

theorem readState_stateText (line : Nat) (state : Option Bool) :
    readState label line (stateText state) = .ok state := by
  cases state with
  | none => rfl
  | some value => cases value <;> rfl

theorem tab_not_mem_stateText (state : Option Bool) : '\t' ∉ stateText state := by
  cases state with
  | none => decide
  | some value => cases value <;> decide

theorem readRow_joinWith (line : Nat) (row : List (Option Bool)) :
    readRow label row.length line (joinWith '\t' (row.map stateText)) = .ok row := by
  unfold readRow
  split
  next hwidth => rw [List.length_eq_zero_iff.mp hwidth]
  next hwidth =>
    have hne : row.map stateText ≠ [] := by
      rw [Ne, List.map_eq_nil_iff, ← List.length_eq_zero_iff]
      exact hwidth
    have hcolumns : splitAt '\t' (joinWith '\t' (row.map stateText)) = row.map stateText := by
      apply splitAt_joinWith hne
      intro piece hpiece
      obtain ⟨state, _, rfl⟩ := List.mem_map.mp hpiece
      exact tab_not_mem_stateText state
    rw [hcolumns]
    dsimp only
    rw [if_neg (not_not.mpr (List.length_map _))]
    exact mapM_written (fun state _ => readState_stateText line state)

theorem readRows {width : Nat} {rows : List (List (Option Bool))}
    (hrows : ∀ row ∈ rows, row.length = width) (start : Nat) :
    (((rows.map (fun row => joinWith '\t' (row.map stateText))).zipIdx start).mapM (fun entry =>
      readRow label width (entry.2 + 3) entry.1)) = .ok rows := by
  induction rows generalizing start with
  | nil => rfl
  | cons row rows ih =>
      rw [List.forall_mem_cons] at hrows
      obtain ⟨rfl, hrest⟩ := hrows
      rw [List.map_cons, List.zipIdx_cons, List.mapM_cons, ih hrest (start + 1)]
      dsimp only
      rw [readRow_joinWith]
      rfl

/-! ## The text -/

theorem lines_text (t : EvidenceTable) : Text.lines t.text.toList = t.lines := by
  have hblankless : ∀ state, OneLine (stateText state) := by
    intro state c hc
    cases state with
    | none => cases hc
    | some value => cases value <;> cases List.mem_singleton.mp hc <;> decide
  unfold text
  rw [String.toList_ofList]
  apply lines_unlines
  unfold lines
  rw [List.forall_mem_cons, List.forall_mem_cons, List.forall_mem_map]
  refine ⟨?_, fun c hc => absurd hc List.not_mem_nil, ?_⟩
  · exact oneLine_joinWith (by decide) (fun piece hpiece =>
      (isWord_of_numbers piece hpiece).oneLine)
  · intro row _
    apply oneLine_joinWith (by decide)
    rw [List.forall_mem_map]
    exact fun state _ => hblankless state

variable {t : EvidenceTable}

theorem parse_text (ht : t.Rectangular) (hvars : ∀ v ∈ t.vars, v < word64) :
    parse label t.text = .ok t := by
  unfold parse
  rw [lines_text]
  unfold lines
  dsimp only [List.headD_cons, List.drop]
  rw [readVars_header hvars]
  dsimp only [bind, Except.bind]
  rw [readRows ht 0]
  rfl

end DerivationBelief.EvidenceTable

import DerivationBelief.BlankText
import Mathlib.Data.List.DropRight
import Mathlib.Tactic

/-!
# Blanks around texts and separators between them

Trimming a text leaves the only text with nonblank ends that has nothing but blanks around it.
Cutting a text at a separator gives the pieces that the separator joins to the text.
-/

namespace DerivationBelief.Text

def Blank (cs : List Char) : Prop :=
  ∀ c ∈ cs, isBlank c = true

/-- There is no blank at either end. -/
structure Tight (cs : List Char) : Prop where
  starts : ∀ c ∈ cs.head?, isBlank c = false
  ends : ∀ c ∈ cs.getLast?, isBlank c = false

theorem tight_of_no_blank {cs : List Char} (hcs : ∀ c ∈ cs, isBlank c = false) : Tight cs where
  starts := fun c hc => hcs c (List.mem_of_head? hc)
  ends := fun c hc => hcs c (List.mem_of_getLast? hc)

/-- A text with blanks around a part of it, or with none. -/
def Padded (core cs : List Char) : Prop :=
  ∃ left right, Blank left ∧ Blank right ∧ cs = left ++ core ++ right

theorem Padded.refl (cs : List Char) : Padded cs cs :=
  ⟨[], [], List.forall_mem_nil _, List.forall_mem_nil _, (List.append_nil cs).symm⟩

theorem Padded.blank_or_mem {core cs : List Char} (hcs : Padded core cs) {c : Char}
    (hc : c ∈ cs) : isBlank c = true ∨ c ∈ core := by
  obtain ⟨left, right, hleft, hright, rfl⟩ := hcs
  rw [List.mem_append, List.mem_append] at hc
  rcases hc with (hc | hc) | hc
  · exact Or.inl (hleft c hc)
  · exact Or.inr hc
  · exact Or.inl (hright c hc)

theorem Padded.mem {core cs : List Char} (hcs : Padded core cs) {c : Char} (hc : c ∈ core) :
    c ∈ cs := by
  obtain ⟨left, right, _, _, rfl⟩ := hcs
  simp [hc]

/-! ## Trimming -/

theorem dropWhile_isBlank_of_starts {cs : List Char}
    (hcs : ∀ c ∈ cs.head?, isBlank c = false) : cs.dropWhile isBlank = cs := by
  cases cs with
  | nil => rfl
  | cons c cs =>
      have hc : isBlank c = false := hcs c rfl
      rw [List.dropWhile_cons_of_neg (by simp [hc])]

theorem head?_dropWhile_isBlank (cs : List Char) :
    ∀ c ∈ (cs.dropWhile isBlank).head?, isBlank c = false := by
  intro c hc
  have hstop := List.head?_dropWhile_not isBlank cs
  rw [Option.mem_def.mp hc] at hstop
  exact hstop

theorem blank_takeWhile (cs : List Char) : Blank (cs.takeWhile isBlank) :=
  fun _ hc => List.mem_takeWhile_imp hc

theorem trim_append_right (cs : List Char) :
    ∃ right, Blank right ∧ cs.dropWhile isBlank = trim cs ++ right :=
  ⟨(cs.dropWhile isBlank).rtakeWhile isBlank, fun _ hc => List.mem_rtakeWhile_imp hc,
    List.rdropWhile_append_rtakeWhile.symm⟩

theorem padded_trim (cs : List Char) : Padded (trim cs) cs := by
  obtain ⟨right, hright, hcut⟩ := trim_append_right cs
  refine ⟨cs.takeWhile isBlank, right, blank_takeWhile cs, hright, ?_⟩
  rw [List.append_assoc, ← hcut, List.takeWhile_append_dropWhile]

theorem tight_trim (cs : List Char) : Tight (trim cs) where
  starts := by
    obtain ⟨right, _, hcut⟩ := trim_append_right cs
    intro c hc
    apply head?_dropWhile_isBlank cs
    rw [hcut, List.head?_append, Option.mem_def.mp hc]
    rfl
  ends := by
    intro c hc
    unfold trim at hc
    rw [List.getLast?_reverse] at hc
    exact head?_dropWhile_isBlank _ c hc

theorem trim_of_padded {core cs : List Char} (hcs : Padded core cs) (hcore : Tight core) :
    trim cs = core := by
  obtain ⟨left, right, hleft, hright, rfl⟩ := hcs
  unfold trim
  rw [List.append_assoc, List.dropWhile_append_of_pos hleft]
  by_cases hempty : core = []
  · subst hempty
    have hdropped : ([] ++ right).dropWhile isBlank = [] := List.dropWhile_eq_nil_iff.mpr hright
    rw [hdropped]
    rfl
  · have hstart : (core ++ right).dropWhile isBlank = core ++ right := by
      apply dropWhile_isBlank_of_starts
      rw [List.head?_append_of_ne_nil _ hempty]
      exact hcore.starts
    have hend : core.reverse.dropWhile isBlank = core.reverse := by
      apply dropWhile_isBlank_of_starts
      rw [List.head?_reverse]
      exact hcore.ends
    rw [hstart, List.reverse_append,
      List.dropWhile_append_of_pos (fun c hc => hright c (List.mem_reverse.mp hc)), hend,
      List.reverse_reverse]

theorem Tight.trim_eq {cs : List Char} (hcs : Tight cs) : trim cs = cs :=
  trim_of_padded (Padded.refl cs) hcs

theorem trim_eq_iff {core cs : List Char} : trim cs = core ↔ Padded core cs ∧ Tight core := by
  constructor
  · rintro rfl
    exact ⟨padded_trim cs, tight_trim cs⟩
  · rintro ⟨hcs, hcore⟩
    exact trim_of_padded hcs hcore

theorem isEmpty_trim_iff {cs : List Char} : (trim cs).isEmpty = true ↔ Blank cs := by
  rw [List.isEmpty_iff, trim_eq_iff]
  constructor
  · rintro ⟨hpadded, _⟩ c hc
    exact (hpadded.blank_or_mem hc).resolve_right List.not_mem_nil
  · intro hblank
    exact ⟨⟨cs, [], hblank, List.forall_mem_nil _, by simp⟩, ⟨by simp, by simp⟩⟩

/-! ## Separators -/

theorem splitAt_eq_splitOn (separator : Char) (cs : List Char) :
    splitAt separator cs = cs.splitOn separator := by
  induction cs with
  | nil => rfl
  | cons c cs ih =>
      obtain ⟨piece, pieces, hpieces⟩ := List.exists_cons_of_ne_nil (List.splitOn_ne_nil separator cs)
      unfold splitAt at ih ⊢
      rw [List.foldr_cons, ih, hpieces, List.splitOn_eq_splitOnP, List.splitOnP_cons_eq_if_modifyHead,
        ← List.splitOn_eq_splitOnP, hpieces]
      by_cases hc : c = separator <;> simp [hc, extendHead]

end DerivationBelief.Text

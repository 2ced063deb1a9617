import DerivationBelief.DecimalText
import DerivationBelief.Proofs.TextLines
import Mathlib.Tactic

/-!
# Written numbers are words

A number is written with digits, a point and a sign, or as one of the words for values that are no
finite numbers.  None of these holds a blank, so a written number is one word of a line.
-/

namespace DerivationBelief

/-- The shortest text of a number is a word. -/
class OneWordNumeral (α : Type) [Numeral α] : Prop where
  text_isWord : ∀ x : α, Text.IsWord (Numeral.text x).toList

namespace Text

theorem isBlank_of_mem_natDigits {n : Nat} {c : Char} (hc : c ∈ natDigits n) :
    isBlank c = false :=
  isBlank_of_isDigit (isDigit_of_mem_natDigits hc)

theorem isBlank_of_mem_replicate {count : Nat} {c : Char} (hc : c ∈ List.replicate count '0') :
    isBlank c = false := by
  rw [(List.mem_replicate.mp hc).2]
  decide

theorem IsWord.append {first second : List Char} (hfirst : ∀ c ∈ first, isBlank c = false)
    (hsecond : IsWord second) : IsWord (first ++ second) where
  ne_nil := by simp [hsecond.ne_nil]
  no_blank := List.forall_mem_append.mpr ⟨hfirst, hsecond.no_blank⟩

theorem no_blank_of_all {chars : List Char} (hchars : chars.all (fun c => !isBlank c) = true) :
    ∀ c ∈ chars, isBlank c = false := by
  intro c hc
  simpa using List.all_eq_true.mp hchars c hc

end Text

namespace Decimal

theorem positional_isWord (d : Fraction) : Text.IsWord (positional false d) := by
  unfold positional
  dsimp only
  split
  · constructor
    · simp [Text.natDigits_ne_nil]
    · rw [if_neg Bool.false_ne_true, List.append_nil, List.forall_mem_append]
      exact ⟨fun _ => Text.isBlank_of_mem_natDigits, fun _ => Text.isBlank_of_mem_replicate⟩
  · set places := (-d.exponent).toNat
    set padded := List.replicate (places + 1 - (Text.natDigits d.coefficient).length) '0' ++
      Text.natDigits d.coefficient
    have hpadded : ∀ c ∈ padded, Text.isBlank c = false := by
      rw [List.forall_mem_append]
      exact ⟨fun _ => Text.isBlank_of_mem_replicate, fun _ => Text.isBlank_of_mem_natDigits⟩
    constructor
    · simp
    · rw [List.forall_mem_append, List.forall_mem_cons]
      exact ⟨fun c hc => hpadded c (List.mem_of_mem_take hc), by decide,
        fun c hc => hpadded c (List.mem_of_mem_drop hc)⟩

theorem render_isWord (x : Float) {digits : Magnitude → List Char}
    (hdigits : ∀ m, Text.IsWord (digits m)) :
    Text.IsWord (plainSpelling.render x digits).toList := by
  have hsign : ∀ negative : Bool, ∀ c ∈ (if negative then "-" else "").toList,
      Text.isBlank c = false := by
    intro negative
    cases negative <;> exact Text.no_blank_of_all (by decide)
  have hundefined : Text.IsWord plainSpelling.undefinedText.toList :=
    ⟨by decide, Text.no_blank_of_all (by decide)⟩
  have hinfinite : Text.IsWord plainSpelling.infiniteText.toList :=
    ⟨by decide, Text.no_blank_of_all (by decide)⟩
  unfold Spelling.render
  dsimp only
  split
  · exact hundefined
  · split
    · rw [String.toList_append]
      exact Text.IsWord.append (hsign (signOfBits x.toBits.toNat)) hinfinite
    · rw [String.toList_append, String.toList_ofList]
      exact Text.IsWord.append (hsign (signOfBits x.toBits.toNat)) (hdigits _)

theorem shortestText_isWord (x : Float) :
    Text.IsWord (plainSpelling.shortestText x).toList :=
  render_isWord x (fun m => positional_isWord m.shortest)

end Decimal

instance : OneWordNumeral Float where
  text_isWord := Decimal.shortestText_isWord

end DerivationBelief

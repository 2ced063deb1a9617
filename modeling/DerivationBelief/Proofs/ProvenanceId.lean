import DerivationBelief.ProvenanceId
import DerivationBelief.Proofs.UnsignedNumeral
import Mathlib.Tactic

/-!
# Identifiers are told apart by their texts

Different identifiers have different texts, and the text of an identifier whose number fits a
machine word is read back as that identifier.  Any other text that is read as the identifier has
zeros in front of the number.
-/

namespace DerivationBelief.ProvenanceId

def number : ProvenanceId → Nat
  | .input k => k
  | .output k => k
  | .hidden k => k
  | .clause k => k
  | .rule k => k

theorem chars_injective : Function.Injective chars := by
  intro first second hsame
  cases first <;> cases second <;>
    first
    | exact congrArg _ (Text.natDigits_injective (List.cons.inj hsame).2)
    | exact absurd (List.cons.inj hsame).1 (by decide)

theorem text_injective : Function.Injective text := by
  intro first second hsame
  exact chars_injective (String.ofList_injective hsame)

@[simp] theorem text_inj {first second : ProvenanceId} :
    first.text = second.text ↔ first = second :=
  text_injective.eq_iff

/-- The text of an identifier is a letter and digits. -/
theorem isAlphanum_of_mem_chars {id : ProvenanceId} {c : Char} (hc : c ∈ id.chars) :
    c.isAlphanum = true := by
  have hdigit : ∀ {k}, c ∈ Text.natDigits k → c.isAlphanum = true := by
    intro k hk
    unfold Char.isAlphanum
    rw [Text.isDigit_of_mem_natDigits hk, Bool.or_true]
  cases id <;> rcases List.mem_cons.mp hc with rfl | hk <;> first | rfl | exact hdigit hk

theorem not_mem_chars {id : ProvenanceId} {c : Char} (hc : c.isAlphanum = false) :
    c ∉ id.chars := by
  intro hmem
  rw [isAlphanum_of_mem_chars hmem] at hc
  cases hc

theorem readChars?_chars {id : ProvenanceId} (hid : id.number < Text.word64) :
    readChars? id.chars = some id := by
  cases id <;> simp_all [chars, readChars?, number, ofLetter?, Option.filter]

theorem readChars?_text {id : ProvenanceId} (hid : id.number < Text.word64) :
    readChars? id.text.toList = some id := by
  rw [text, String.toList_ofList]
  exact readChars?_chars hid

/-- What is read as an identifier is its letter, some zeros and its number. -/
theorem chars_of_readChars? {cs : List Char} {id : ProvenanceId} (hread : readChars? cs = some id) :
    ∃ letter zeros, cs = letter :: (List.replicate zeros '0' ++ Text.natDigits id.number) ∧
      id.chars = letter :: Text.natDigits id.number := by
  cases cs with
  | nil => cases hread
  | cons letter digits =>
      obtain ⟨number, hnumber, hread⟩ := Option.bind_eq_some_iff.mp hread
      obtain ⟨name, hname, hread⟩ := Option.bind_eq_some_iff.mp hread
      cases hread
      have hchars : (name number).number = number ∧
          (name number).chars = letter :: Text.natDigits number := by
        unfold ofLetter? at hname
        split at hname <;> cases hname <;> exact ⟨rfl, rfl⟩
      obtain ⟨zeros, hzeros⟩ :=
        Text.eq_zeros_append_natDigits (Option.filter_eq_some_iff.mp hnumber).1
      exact ⟨letter, zeros, by rw [hchars.1, hzeros], by rw [hchars.1, hchars.2]⟩

end DerivationBelief.ProvenanceId

import DerivationBelief.UnsignedNumeral
import Mathlib.Tactic

/-!
# Numerals that were written are read back

A text is read as a number when it is a numeral of the number below the bound of the field: digits
of its value, with or without a plus sign.  The digits of a number are such a text, so different
numbers have different digits.  Whatever is read as a number without a sign is its digits behind
some zeros.
-/

namespace DerivationBelief.Text

theorem natDigits_eq (n : Nat) : natDigits n = Nat.toDigits 10 n :=
  Nat.toList_repr

theorem natDigits_ne_nil (n : Nat) : natDigits n ≠ [] := by
  rw [natDigits_eq]
  exact Nat.toDigits_ne_nil

theorem isDigit_of_mem_natDigits {n : Nat} {c : Char} (hc : c ∈ natDigits n) :
    c.isDigit = true := by
  rw [natDigits_eq] at hc
  exact Nat.isDigit_of_mem_toDigits (by decide) (by decide) hc

theorem digitValue?_of_isDigit {c : Char} (hc : c.isDigit = true) :
    digitValue? c = some (c.toNat - '0'.toNat) := by
  rw [Char.isDigit_iff_toNat] at hc
  unfold digitValue?
  rw [if_pos ⟨hc.1, hc.2⟩]

theorem digitsValue?_of_isDigit {cs : List Char} (hcs : ∀ c ∈ cs, c.isDigit = true)
    (value : Nat) : digitsValue? value cs = some (Nat.ofDigitChars 10 cs value) := by
  induction cs generalizing value with
  | nil => rfl
  | cons c cs ih =>
      rw [List.forall_mem_cons] at hcs
      have hdigit := digitValue?_of_isDigit hcs.1
      simp only [digitsValue?, hdigit, Option.bind_eq_bind, Option.bind_some, ih hcs.2,
        Nat.ofDigitChars_cons]

theorem isDigit_of_digitValue? {c : Char} {digit : Nat} (hdigit : digitValue? c = some digit) :
    c.isDigit = true := by
  unfold digitValue? at hdigit
  split at hdigit
  next hrange => exact Char.isDigit_iff_toNat.mpr ⟨hrange.1, hrange.2⟩
  next => cases hdigit

theorem digitsValue?_eq_some_iff {cs : List Char} {value n : Nat} :
    digitsValue? value cs = some n ↔
      (∀ c ∈ cs, c.isDigit = true) ∧ Nat.ofDigitChars 10 cs value = n := by
  constructor
  · intro hvalue
    have hdigits : ∀ c ∈ cs, c.isDigit = true := by
      induction cs generalizing value with
      | nil => exact List.forall_mem_nil _
      | cons c cs ih =>
          obtain ⟨digit, hdigit, hrest⟩ := Option.bind_eq_some_iff.mp hvalue
          rw [List.forall_mem_cons]
          exact ⟨isDigit_of_digitValue? hdigit, ih hrest⟩
    rw [digitsValue?_of_isDigit hdigits, Option.some.injEq] at hvalue
    exact ⟨hdigits, hvalue⟩
  · rintro ⟨hdigits, rfl⟩
    exact digitsValue?_of_isDigit hdigits value

/-! ## Numerals -/

/-- The texts of a number: digits that have its value, with or without a plus sign in front. -/
inductive NumeralOf (n : Nat) : List Char → Prop
  | plain {digits : List Char} (hne : digits ≠ []) (hdigits : ∀ c ∈ digits, c.isDigit = true)
      (hvalue : Nat.ofDigitChars 10 digits 0 = n) : NumeralOf n digits
  | signed {digits : List Char} (hne : digits ≠ []) (hdigits : ∀ c ∈ digits, c.isDigit = true)
      (hvalue : Nat.ofDigitChars 10 digits 0 = n) : NumeralOf n ('+' :: digits)

theorem readDigits?_eq_some_iff {cs : List Char} {n : Nat} :
    readDigits? cs = some n ↔
      cs ≠ [] ∧ (∀ c ∈ cs, c.isDigit = true) ∧ Nat.ofDigitChars 10 cs 0 = n := by
  unfold readDigits?
  cases cs with
  | nil => simp
  | cons c cs =>
      rw [List.isEmpty_cons, if_neg Bool.false_ne_true, digitsValue?_eq_some_iff]
      exact (and_iff_right (List.cons_ne_nil c cs)).symm

theorem readBelow?_signed (bound : Nat) (rest : List Char) :
    readBelow? bound ('+' :: rest) = (readDigits? rest).filter (· < bound) :=
  rfl

theorem readBelow?_of_unsigned {cs : List Char} (hunsigned : ∀ rest, cs ≠ '+' :: rest)
    (bound : Nat) : readBelow? bound cs = (readDigits? cs).filter (· < bound) := by
  unfold readBelow?
  split
  next rest => exact absurd rfl (hunsigned rest)
  next => rfl

theorem not_signed_of_isDigit {cs : List Char} (hdigits : ∀ c ∈ cs, c.isDigit = true)
    (rest : List Char) : cs ≠ '+' :: rest := by
  rintro rfl
  exact absurd (hdigits '+' List.mem_cons_self) (by decide)

theorem readBelow?_eq_some_iff {bound : Nat} {cs : List Char} {n : Nat} :
    readBelow? bound cs = some n ↔ NumeralOf n cs ∧ n < bound := by
  constructor
  · intro hread
    by_cases hsigned : ∃ rest, cs = '+' :: rest
    · obtain ⟨rest, rfl⟩ := hsigned
      rw [readBelow?_signed, Option.filter_eq_some_iff, readDigits?_eq_some_iff] at hread
      obtain ⟨⟨hne, hdigits, hvalue⟩, hlt⟩ := hread
      exact ⟨.signed hne hdigits hvalue, of_decide_eq_true hlt⟩
    · rw [readBelow?_of_unsigned (not_exists.mp hsigned), Option.filter_eq_some_iff,
        readDigits?_eq_some_iff] at hread
      obtain ⟨⟨hne, hdigits, hvalue⟩, hlt⟩ := hread
      exact ⟨.plain hne hdigits hvalue, of_decide_eq_true hlt⟩
  · rintro ⟨hnumeral, hlt⟩
    cases hnumeral with
    | plain hne hdigits hvalue =>
        rw [readBelow?_of_unsigned (not_signed_of_isDigit hdigits), Option.filter_eq_some_iff,
          readDigits?_eq_some_iff]
        exact ⟨⟨hne, hdigits, hvalue⟩, decide_eq_true hlt⟩
    | signed hne hdigits hvalue =>
        rw [readBelow?_signed, Option.filter_eq_some_iff, readDigits?_eq_some_iff]
        exact ⟨⟨hne, hdigits, hvalue⟩, decide_eq_true hlt⟩

theorem NumeralOf.mem {n : Nat} {cs : List Char} (hcs : NumeralOf n cs) {c : Char}
    (hc : c ∈ cs) : c = '+' ∨ c.isDigit = true := by
  cases hcs with
  | plain _ hdigits _ => exact Or.inr (hdigits c hc)
  | signed _ hdigits _ =>
      rcases List.mem_cons.mp hc with hsign | hdigit
      · exact Or.inl hsign
      · exact Or.inr (hdigits c hdigit)

theorem NumeralOf.ne_nil {n : Nat} {cs : List Char} (hcs : NumeralOf n cs) : cs ≠ [] := by
  cases hcs with
  | plain hne _ _ => exact hne
  | signed _ _ _ => exact List.cons_ne_nil _ _

/-! ## Written numbers -/

@[simp] theorem readDigits?_natDigits (n : Nat) : readDigits? (natDigits n) = some n := by
  have hne : (natDigits n).isEmpty = false := by
    simpa using natDigits_ne_nil n
  unfold readDigits?
  rw [hne, digitsValue?_of_isDigit (fun _ => isDigit_of_mem_natDigits), natDigits_eq,
    Nat.ofDigitChars_ten_toDigits]
  rfl

theorem natDigits_injective : Function.Injective natDigits := by
  intro m n hsame
  have hread := readDigits?_natDigits m
  rw [hsame, readDigits?_natDigits] at hread
  exact (Option.some.inj hread).symm

theorem readBelow?_natDigits_eq (bound n : Nat) :
    readBelow? bound (natDigits n) = (some n).filter (· < bound) := by
  rw [readBelow?_of_unsigned (not_signed_of_isDigit (fun _ => isDigit_of_mem_natDigits)),
    readDigits?_natDigits]

theorem readBelow?_natDigits {bound n : Nat} (hn : n < bound) :
    readBelow? bound (natDigits n) = some n := by
  rw [readBelow?_natDigits_eq]
  simp [hn]

theorem numeralOf_natDigits (n : Nat) : NumeralOf n (natDigits n) :=
  (readBelow?_eq_some_iff.mp (readBelow?_natDigits (Nat.lt_succ_self n))).1

/-! ## Leading zeros -/

theorem digitChar_of_digitValue? {c : Char} {digit : Nat} (hdigit : digitValue? c = some digit) :
    digit < 10 ∧ digit.digitChar = c := by
  unfold digitValue? at hdigit
  split at hdigit
  next hrange =>
    cases hdigit
    have hlow : 48 ≤ c.toNat := hrange.1
    have hhigh : c.toNat ≤ 57 := hrange.2
    have hchar : Char.ofNat c.toNat = c := Char.ofNat_toNat c
    refine ⟨?_, ?_⟩
    · change c.toNat - 48 < 10
      omega
    · rw [← hchar]
      generalize c.toNat = code at hlow hhigh
      interval_cases code <;> rfl
  next => cases hdigit

theorem natDigits_append_digit {n digit : Nat} (hn : 0 < n) (hdigit : digit < 10) :
    natDigits (10 * n + digit) = natDigits n ++ [digit.digitChar] := by
  rw [natDigits_eq, natDigits_eq, ← Nat.toDigits_append_toDigits (by decide) hn hdigit,
    Nat.toDigits_of_lt_base hdigit]

/-- Digits behind a positive number continue its digits. -/
theorem natDigits_of_digitsValue? {cs : List Char} {n k : Nat} (hn : 0 < n)
    (hvalue : digitsValue? n cs = some k) : natDigits k = natDigits n ++ cs := by
  induction cs generalizing n with
  | nil =>
      cases hvalue
      rw [List.append_nil]
  | cons c cs ih =>
      obtain ⟨digit, hdigit, hrest⟩ := Option.bind_eq_some_iff.mp hvalue
      obtain ⟨hlt, hchar⟩ := digitChar_of_digitValue? hdigit
      rw [ih (by omega) hrest, natDigits_append_digit hn hlt, hchar, List.append_assoc]
      rfl

theorem eq_zeros_append_natDigits {cs : List Char} {k : Nat} (hread : readDigits? cs = some k) :
    ∃ zeros, cs = List.replicate zeros '0' ++ natDigits k := by
  have hvalue : cs ≠ [] ∧ digitsValue? 0 cs = some k := by
    unfold readDigits? at hread
    split at hread
    next => cases hread
    next hne => exact ⟨by simpa using hne, hread⟩
  obtain ⟨hne, hvalue⟩ := hvalue
  clear hread
  induction cs with
  | nil => exact absurd rfl hne
  | cons c cs ih =>
      obtain ⟨digit, hdigit, hrest⟩ := Option.bind_eq_some_iff.mp hvalue
      obtain ⟨hlt, rfl⟩ := digitChar_of_digitValue? hdigit
      cases digit with
      | zero =>
          cases cs with
          | nil =>
              cases hrest
              exact ⟨0, rfl⟩
          | cons d cs =>
              obtain ⟨zeros, hzeros⟩ := ih (List.cons_ne_nil d cs) hrest
              exact ⟨zeros + 1, congrArg _ hzeros⟩
      | succ digit =>
          -- The first digit that is not zero starts the digits of the number.
          rw [Nat.mul_zero, Nat.zero_add] at hrest
          have hfirst : natDigits (digit + 1) = [(digit + 1).digitChar] := by
            rw [natDigits_eq, Nat.toDigits_of_lt_base hlt]
          refine ⟨0, ?_⟩
          rw [natDigits_of_digitsValue? (Nat.succ_pos digit) hrest, hfirst]
          rfl

end DerivationBelief.Text

import DerivationBelief.UnsignedNumeral
import Mathlib.Tactic

/-!
# Arithmetic of 64-bit numbers

The operations below have a result only where it is a 64-bit number.  A computation with them that
has a result is one in which nothing wraps around.
-/

namespace DerivationBelief

namespace Word

def add? (a b : Nat) : Option Nat :=
  if a + b < Text.word64 then some (a + b) else none

def mul? (a b : Nat) : Option Nat :=
  if a * b < Text.word64 then some (a * b) else none

def sub? (a b : Nat) : Option Nat :=
  if b ≤ a then some (a - b) else none

/-- The number of a single bit.  A shift by the whole width of a word is not defined. -/
def bit? (place : Nat) : Option Nat :=
  if place < 64 then some (2 ^ place) else none

variable {a b : Nat}

theorem add?_of_lt (hlt : a + b < Text.word64) : add? a b = some (a + b) :=
  if_pos hlt

theorem mul?_of_lt (hlt : a * b < Text.word64) : mul? a b = some (a * b) :=
  if_pos hlt

theorem sub?_of_le (hle : b ≤ a) : sub? a b = some (a - b) :=
  if_pos hle

theorem eq_sub_of_sub? {c : Nat} (hc : sub? a b = some c) : a - b = c := by
  unfold sub? at hc
  split at hc
  · exact Option.some.inj hc
  · cases hc

theorem bit?_of_lt {place : Nat} (hlt : place < 64) : bit? place = some (2 ^ place) :=
  if_pos hlt

theorem two_pow_lt {place : Nat} (hlt : place < 64) : 2 ^ place < Text.word64 :=
  Nat.pow_lt_pow_right (by norm_num) hlt

end Word

end DerivationBelief

import DerivationBelief.DifferentiatingLearner
import DerivationBelief.Proofs.UnsignedNumeral
import Mathlib.Tactic

/-!
# Names of added nodes

The name of an added node is made of a mark, a role, the number of the round, and the name of the
observed node.  The number is the first run of digits behind the mark, so the name tells all of them
apart, and no node whose name begins otherwise is met.
-/

namespace DerivationBelief

open Text

/-- What stands in front of the first character of some kind is fixed by the whole. -/
theorem append_cons_inj_of_class {β : Type} {kind : β → Bool} {xs ys : List β} {x y : β}
    {rest others : List β} (hxs : ∀ z ∈ xs, kind z = false) (hys : ∀ z ∈ ys, kind z = false)
    (hx : kind x = true) (hy : kind y = true) (heq : xs ++ x :: rest = ys ++ y :: others) :
    xs = ys ∧ x :: rest = y :: others := by
  have hfront : ∀ (zs : List β) (z : β) (tail : List β), (∀ w ∈ zs, kind w = false) →
      kind z = true → (zs ++ z :: tail).takeWhile (fun w => !kind w) = zs := by
    intro zs z tail hzs hz
    rw [List.takeWhile_append_of_pos (by simpa using hzs),
      List.takeWhile_cons_of_neg (by simp [hz]), List.append_nil]
  have hsame : xs = ys := by
    rw [← hfront xs x rest hxs hx, heq, hfront ys y others hys hy]
  subst hsame
  exact ⟨rfl, List.append_cancel_left heq⟩

namespace DifferentiatingLearner

theorem toList_addedName (role : String) (round : Nat) (node : String) :
    (addedName role round node).toList =
      "_Dyna".toList ++ (role.toList ++ (natDigits round ++ '_' :: node.toList)) := by
  have hnumber : (s!"{round}_").toList = natDigits round ++ ['_'] := by
    change (toString round ++ "_").toList = _
    rw [String.toList_append]
    rfl
  unfold addedName
  rw [String.toList_append, String.toList_append, String.toList_append, hnumber]
  simp only [List.append_assoc, List.singleton_append]

theorem mark_prefix_addedName (role : String) (round : Nat) (node : String) :
    "_Dyna".toList <+: (addedName role round node).toList := by
  rw [toList_addedName]
  exact List.prefix_append _ _

/-- A role has no digit in it, so the number of the round is found behind it. -/
theorem addedName_inj {role other : String} {round later : Nat} {node label : String}
    (hrole : ∀ c ∈ role.toList, c.isDigit = false) (hother : ∀ c ∈ other.toList, c.isDigit = false)
    (heq : addedName role round node = addedName other later label) :
    role = other ∧ round = later ∧ node = label := by
  have hlists := congrArg String.toList heq
  rw [toList_addedName, toList_addedName] at hlists
  have hbehind := List.append_cancel_left hlists
  obtain ⟨first, digits, hdigits⟩ := List.exists_cons_of_ne_nil (natDigits_ne_nil round)
  obtain ⟨front, numerals, hnumerals⟩ := List.exists_cons_of_ne_nil (natDigits_ne_nil later)
  have hfirst : first.isDigit = true :=
    isDigit_of_mem_natDigits (hdigits ▸ List.mem_cons_self)
  have hfront : front.isDigit = true :=
    isDigit_of_mem_natDigits (hnumerals ▸ List.mem_cons_self)
  rw [hdigits, hnumerals] at hbehind
  obtain ⟨hroles, hbehind⟩ := append_cons_inj_of_class hrole hother hfirst hfront hbehind
  have hrest : natDigits round ++ '_' :: node.toList = natDigits later ++ '_' :: label.toList := by
    rw [hdigits, hnumerals]
    exact hbehind
  have hnumber : ∀ (n : Nat), ∀ c ∈ natDigits n, (!c.isDigit) = false := by
    intro n c hc
    simp [isDigit_of_mem_natDigits hc]
  obtain ⟨hrounds, hnodes⟩ :=
    append_cons_inj_of_class (hnumber round) (hnumber later) (by decide) (by decide) hrest
  exact ⟨String.toList_injective hroles, natDigits_injective hrounds,
    String.toList_injective (List.cons.inj hnodes).2⟩

end DifferentiatingLearner

end DerivationBelief

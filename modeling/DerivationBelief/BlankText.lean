import DerivationBelief.CharacterRanges

/-!
# Blanks around and between words

The blank characters are those with the Unicode property of white space, version 15.  Texts are
cut at blanks into words and stripped of the blanks at both ends.
-/

namespace DerivationBelief.Text

def blankRanges : List (Nat × Nat) :=
  [(0x09, 0x0D), (0x20, 0x20), (0x85, 0x85), (0xA0, 0xA0), (0x1680, 0x1680), (0x2000, 0x200A),
    (0x2028, 0x2029), (0x202F, 0x202F), (0x205F, 0x205F), (0x3000, 0x3000)]

def isBlank (c : Char) : Bool :=
  inRanges blankRanges c

def trim (cs : List Char) : List Char :=
  ((cs.dropWhile isBlank).reverse.dropWhile isBlank).reverse

def extendHead (c : Char) : List (List Char) → List (List Char)
  | [] => [[c]]
  | piece :: pieces => (c :: piece) :: pieces

def words (cs : List Char) : List (List Char) :=
  (cs.foldr
    (fun c (state : List (List Char) × Bool) =>
      if isBlank c then (state.1, false)
      else if state.2 then (extendHead c state.1, true)
      else ([c] :: state.1, true))
    ([], false)).1

/-- The pieces between the occurrences of a separator: one more than there are occurrences. -/
def splitAt (separator : Char) (cs : List Char) : List (List Char) :=
  cs.foldr (fun c pieces => if c = separator then [] :: pieces else extendHead c pieces) [[]]

end DerivationBelief.Text

import DerivationBelief.BlankText

/-!
# Lines of a text

A line ends at a line feed; a carriage return in front of the line feed belongs to the end of the
line.  The text after the last line feed is a line when it is not empty.
-/

namespace DerivationBelief.Text

/-- One character of a text, read from its end: the lines behind it and whether the character
behind it is a line feed. -/
def addToLines (c : Char) (state : List (List Char) × Bool) : List (List Char) × Bool :=
  if c = '\n' then ([] :: state.1, true)
  else if c = '\r' ∧ state.2 then (state.1, false)
  else (extendHead c state.1, false)

def lines (cs : List Char) : List (List Char) :=
  (cs.foldr addToLines ([], false)).1

def unlines (ls : List (List Char)) : List Char :=
  ls.flatMap (fun line => line ++ ['\n'])

def joinWith (separator : Char) : List (List Char) → List Char
  | [] => []
  | [piece] => piece
  | piece :: pieces => piece ++ separator :: joinWith separator pieces

end DerivationBelief.Text

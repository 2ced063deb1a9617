/-!
# Sets of characters

A set of characters is given by closed ranges of code points.
-/

namespace DerivationBelief.Text

def inRanges (ranges : List (Nat × Nat)) (c : Char) : Bool :=
  ranges.any (fun range => range.1 ≤ c.toNat && c.toNat ≤ range.2)

end DerivationBelief.Text

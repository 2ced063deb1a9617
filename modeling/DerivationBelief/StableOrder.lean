/-!
# Stable sorting

Insertion sort for a relation that says which of two elements may come first.  Elements that may
come in either order keep their order.
-/

namespace DerivationBelief

/-- Insert an element in front of the first one that it may precede. -/
def insertBy {β : Type} (before : β → β → Bool) (x : β) : List β → List β
  | [] => [x]
  | y :: ys => if before x y then x :: y :: ys else y :: insertBy before x ys

def sortBy {β : Type} (before : β → β → Bool) (elements : List β) : List β :=
  elements.foldr (insertBy before) []

end DerivationBelief

/-!
# Collections in order of arrival

Sets and maps whose elements keep the order in which they first arrived.  Adding an element that
is present changes nothing; writing to a key that is present replaces its value in place.
-/

namespace DerivationBelief.Arrival

section Sets

variable {κ : Type} [DecidableEq κ]

def insert (elements : List κ) (x : κ) : List κ :=
  if x ∈ elements then elements else elements ++ [x]

def insertAll (elements : List κ) (news : List κ) : List κ :=
  news.foldl insert elements

def distinct (elements : List κ) : List κ :=
  insertAll [] elements

def remove (elements : List κ) (x : κ) : List κ :=
  elements.filter (fun y => y ≠ x)

def position? (elements : List κ) (x : κ) : Option Nat :=
  elements.findIdx? (fun y => y = x)

end Sets

section Maps

variable {κ β : Type} [DecidableEq κ]

def get? : List (κ × β) → κ → Option β
  | [], _ => none
  | (k, v) :: rest, key => if k = key then some v else get? rest key

/-- A present key keeps its place, a new one goes to the end. -/
def put : List (κ × β) → κ → β → List (κ × β)
  | [], key, value => [(key, value)]
  | (k, v) :: rest, key, value =>
      if k = key then (k, value) :: rest else (k, v) :: put rest key value

def hasKey (entries : List (κ × β)) (key : κ) : Bool :=
  (get? entries key).isSome

def putAll (entries : List (κ × β)) (news : List (κ × β)) : List (κ × β) :=
  news.foldl (fun acc entry => put acc entry.1 entry.2) entries

def append (entries : List (κ × List β)) (key : κ) (value : β) : List (κ × List β) :=
  put entries key ((get? entries key).getD [] ++ [value])

end Maps

end DerivationBelief.Arrival

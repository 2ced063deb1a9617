import DerivationBelief.QuotedText
import DerivationBelief.ReplicaNetwork

/-!
# Descriptions of networks

One line about a network for messages to a person: its name, its file, its numbering, and whether it
is loaded.
-/

namespace DerivationBelief.ReplicaNetwork

def fieldTexts {α : Type} (n : ReplicaNetwork α) : List (String × String) :=
  [("name", Text.quoted n.name), ("fg_path", Text.quoted n.path), ("offset", s!"{n.offset}"),
    ("shift", s!"{n.shift}"), ("num_repeats", s!"{n.repetitions}"),
    ("loaded", if n.isReleased then "false" else "true")]

def description {α : Type} (n : ReplicaNetwork α) : String :=
  "MetaNetwork \x7b " ++
    ", ".intercalate (n.fieldTexts.map (fun field => field.1 ++ ": " ++ field.2)) ++ " \x7d"

end DerivationBelief.ReplicaNetwork

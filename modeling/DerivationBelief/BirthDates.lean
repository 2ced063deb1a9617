import DerivationBelief.ClauseIndex

/-!
# Birth dates of tuples

The birth date of a tuple is the height of its lowest derivation from the inputs: inputs have date
zero, and a rule dates its head one later than the latest tuple of its body.  Tuples without a
derivation keep the number of tuples as their date, which no derivation exceeds.

The dates are found by a worklist.  A rule dates its head as soon as all of its body has been
visited, and again whenever a tuple of its body is visited again.  Every step removes one entry of
the queue, and every new entry lowers some date, so the sum of the dates and the length of the
queue bound the number of steps.
-/

namespace DerivationBelief

structure Dating where
  pending : List Nat
  visited : List Nat
  dates : List Nat
  queue : List Nat
deriving DecidableEq, Repr

namespace Dating

def date (s : Dating) (t : Nat) : Nat :=
  s.dates.getD t s.dates.length

def latest (s : Dating) (body : List Nat) : Nat :=
  (body.map s.date).foldl max 0

/-- The work that is left: every step of the worklist lowers it. -/
def work (s : Dating) : Nat :=
  s.dates.foldr (· + ·) s.queue.length

def relax (index : ClauseIndex) (s : Dating) (c : Nat) : Dating :=
  let candidate := min (s.latest (index.body c) + 1) index.size
  let head := index.head c
  if candidate < s.date head then
    { s with dates := s.dates.set head candidate, queue := s.queue ++ [head] }
  else s

def reach (index : ClauseIndex) (firstVisit : Bool) (s : Dating) (c : Nat) : Dating :=
  let s := if firstVisit then { s with pending := s.pending.modify c (· - 1) } else s
  if s.pending.getD c 0 = 0 then s.relax index c else s

def visit (index : ClauseIndex) (s : Dating) (t : Nat) : Dating :=
  let firstVisit := !s.visited.contains t
  let s := { s with visited := Arrival.insert s.visited t }
  (index.consequents t).foldl (reach index firstVisit) s

def run (index : ClauseIndex) : Nat → Dating → Dating
  | 0, s => s
  | fuel + 1, s =>
      match s.queue with
      | [] => s
      | t :: rest => run index fuel (visit index { s with queue := rest } t)

def start (index : ClauseIndex) (inputs : List GroundTuple) : Dating :=
  let dates := index.tuples.map (fun t => if inputs.contains t then 0 else index.size)
  { pending := index.rules.map (fun rule => rule.body.length)
    visited := []
    dates
    queue := (List.range index.size).filter (fun t => dates.getD t 1 = 0) }

def seed (index : ClauseIndex) (s : Dating) : Dating :=
  (index.ruleNumbers (fun _ rule => rule.body.isEmpty)).foldl (relax index) s

def final (index : ClauseIndex) (inputs : List GroundTuple) : Dating :=
  let s := (start index inputs).seed index
  s.run index s.work

end Dating

def ClauseIndex.birthDates (index : ClauseIndex) (inputs : List GroundTuple) : List Nat :=
  (Dating.final index inputs).dates

/-- The rules whose head is born after all of their body. -/
def ClauseIndex.forwardRules (index : ClauseIndex) (dates : List Nat) : List Nat :=
  let date (t : Nat) := dates.getD t index.size
  index.ruleNumbers (fun _ rule => (rule.body.map date).foldl max 0 < date rule.head)

end DerivationBelief

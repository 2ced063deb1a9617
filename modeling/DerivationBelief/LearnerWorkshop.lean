import DerivationBelief.Learner

/-!
# Making learners

A workshop makes learners whose files lie in a directory of their own below its root.  A kind that
it does not know becomes an iterating learner.
-/

namespace DerivationBelief

structure LearnerWorkshop (α : Type) where
  root : String
  template : LearnerContext α
  defaultKind : String

namespace LearnerWorkshop

variable {α : Type} [Scalar α]

def ofSettings (s : Settings α) : LearnerWorkshop α :=
  let root := s.effectiveWorkDirectory
  { root, template := LearnerContext.ofSettings root s, defaultKind := s.effectiveKind }

def make (workshop : LearnerWorkshop α) (w : Workspace) (kind name : String)
    (graph : CausalGraph α) : Outcome (LearnerFault α) (Learner α) Workspace :=
  let directory := joinPath workshop.root name
  let (files, ready) := w.files.createDirectory directory
  let w := { w with files }
  if ready then
    let kind := match LearnerKind.read (α := α) kind with
      | .ok kind => kind
      | .error _ => .iterating
    (Learner.new kind name { workshop.template with directory } graph, w)
  else (.error (.workDirectory directory), w)

def makeDefault (workshop : LearnerWorkshop α) (w : Workspace) (name : String)
    (graph : CausalGraph α) : Outcome (LearnerFault α) (Learner α) Workspace :=
  workshop.make w workshop.defaultKind name graph

end LearnerWorkshop

end DerivationBelief

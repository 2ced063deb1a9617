import DerivationBelief.Proofs.AuditedLearners
import DerivationBelief.Proofs.LearnerRuns
import Mathlib.Tactic

/-!
# No answer is lost

A learner that learns batch by batch or grows its graph replaces its network at an append, and when
it catches up with the batches.  Over a whole run, in which questions may fail and work may be given
up anywhere, each network that was replaced has left a record of all its answers under a name of its
own, and the network that is held has noted what it was asked.
-/

namespace DerivationBelief

variable {α : Type} [Numeral α] [Scalar α]

namespace Learner

def network? : Learner α → Option (ReplicaNetwork α)
  | .iterating l => l.network
  | .oneShot l => l.network
  | .fitting l => l.network
  | .differentiating l => l.network

/-- The number of updates, batches or rounds that the learner has come to. -/
def number : Learner α → Nat
  | .iterating l => l.updates
  | .oneShot l => l.history.length
  | .fitting l => l.history.length
  | .differentiating l => l.rounds.length

/-- An observation drops the network.  Learners of the other kinds leave no records. -/
def auditCall (l : Learner α) (w : Workspace) (a : QueryAudit α) (call : LearnerCall) :
    QueryAudit α :=
  match l, call with
  | .iterating _, .append _ | .differentiating _, .append _ => a.replace
  | .iterating l, .query node => l.auditQuery w a node
  | .iterating l, .posterior _ => l.auditRefresh w a
  | .differentiating l, .query node => l.auditQuery w a node
  | .differentiating l, .posterior _ => l.auditRefresh w a
  | .oneShot _, _ | .fitting _, _ => a

/-- A call leaves a learner and a workspace behind. -/
def carryOut (l : Learner α) (w : Workspace) : LearnerCall → Learner α × Workspace
  | .append records => l.append w (.ofRecords records)
  | .query node => (l.query w node).2
  | .posterior dist => (l.posterior w dist).2

/-- The books of a learner that leaves records. -/
def Audited (directory : String) (start : FileTree) (limit appended : Nat) (files : FileTree)
    (a : QueryAudit α) : Learner α → Prop
  | .iterating l => l.Audited directory start limit appended files a
  | .differentiating l => l.Audited directory start limit appended files a
  | .oneShot _ | .fitting _ => False

variable {directory : String} {start : FileTree} {limit appended : Nat} {w : Workspace}
  {files : FileTree} {a : QueryAudit α} {l : Learner α}

theorem Audited.new {kind : LearnerKind} (hkind : kind = .iterating ∨ kind = .differentiating)
    {name : String} {c : LearnerContext α} {g : CausalGraph α} (hl : new kind name c g = .ok l)
    (htakes : ∀ k < limit, files.Takes (recordPath c.directory k)) :
    l.Audited c.directory files limit 0 files QueryAudit.empty := by
  rcases hkind with rfl | rfl
  · cases hl
    exact IteratingLearner.Audited.new name c g htakes
  · unfold Learner.new at hl
    cases hnew : DifferentiatingLearner.new name c g with
    | error fault =>
        rw [hnew] at hl
        cases hl
    | ok started =>
        rw [hnew] at hl
        cases hl
        exact DifferentiatingLearner.Audited.new hnew htakes

theorem Audited.carryOut (hl : l.Audited directory start limit appended w.files a)
    {call : LearnerCall} (hcall : appended + call.isAppend.toNat ≤ limit) :
    (l.carryOut w call).1.Audited directory start limit (appended + call.isAppend.toNat)
      (l.carryOut w call).2.files (l.auditCall w a call) := by
  have happended : appended ≤ limit := by omega
  cases l with
  | iterating l =>
      cases call with
      | append records => exact IteratingLearner.Audited.append hl hcall (.ofRecords records)
      | query node => exact IteratingLearner.Audited.query hl happended node
      | posterior dist => exact IteratingLearner.Audited.posterior hl happended dist
  | differentiating l =>
      cases call with
      | append records => exact DifferentiatingLearner.Audited.append hl hcall (.ofRecords records)
      | query node => exact DifferentiatingLearner.Audited.query hl node
      | posterior dist => exact DifferentiatingLearner.Audited.posterior hl dist
  | oneShot l => exact hl.elim
  | fitting l => exact hl.elim

/-- An answer about a node is noted for the network that gave it, which the learner holds. -/
theorem Audited.answered (hl : l.Audited directory start limit appended files a) {node : String}
    {p : α} (hp : (l.query w node).1 = .ok p) :
    ∃ id, l.graph.nodeId? node = some id ∧
      (∃ earlier, l.auditCall w a (.query node) = QueryAudit.note earlier [(id, p)]) ∧
      ∃ n, (l.query w node).2.1.network? = some n := by
  cases l with
  | iterating l => exact IteratingLearner.auditQuery_ok a hp
  | differentiating l => exact DifferentiatingLearner.auditQuery_ok a hp
  | oneShot l => exact hl.elim
  | fitting l => exact hl.elim

omit [Scalar α] in
theorem Audited.books (hl : l.Audited directory start limit appended files a) :
    Books directory start limit files l.network? l.number a := by
  cases l with
  | iterating l => exact IteratingLearner.Tallies.books hl.toTallies
  | differentiating l => exact DifferentiatingLearner.Audited.books hl
  | oneShot l => exact hl.elim
  | fitting l => exact hl.elim

end Learner

/-- A learner, the files that it works with, and the audit of its run. -/
structure AuditedRun (α : Type) where
  learner : Learner α
  files : FileTree
  audit : QueryAudit α

namespace AuditedRun

/-- Make a call in the files that the calls before have left. -/
def make (s : AuditedRun α) (entry : LearnerCall × Cancellation) : AuditedRun α :=
  let w : Workspace := ⟨s.files, entry.2⟩
  let (learner, after) := s.learner.carryOut w entry.1
  ⟨learner, after.files, s.learner.auditCall w s.audit entry.1⟩

/-- Make calls one after the other, with work given up in each as it happens to be. -/
def of (l : Learner α) (files : FileTree) (calls : List (LearnerCall × Cancellation)) :
    AuditedRun α :=
  calls.foldl make ⟨l, files, .empty⟩

def appends (calls : List (LearnerCall × Cancellation)) : Nat :=
  calls.countP (fun entry => entry.1.isAppend)

variable {directory : String} {start : FileTree} {limit appended : Nat} {s : AuditedRun α}

theorem audited_make (hs : s.learner.Audited directory start limit appended s.files s.audit)
    (entry : LearnerCall × Cancellation) (hentry : appended + entry.1.isAppend.toNat ≤ limit) :
    (s.make entry).learner.Audited directory start limit (appended + entry.1.isAppend.toNat)
      (s.make entry).files (s.make entry).audit :=
  Learner.Audited.carryOut (w := ⟨s.files, entry.2⟩) hs hentry

theorem audited_foldl {calls : List (LearnerCall × Cancellation)}
    (hs : s.learner.Audited directory start limit appended s.files s.audit)
    (hcalls : appended + appends calls ≤ limit) :
    (calls.foldl make s).learner.Audited directory start limit (appended + appends calls)
      (calls.foldl make s).files (calls.foldl make s).audit := by
  induction calls generalizing s appended with
  | nil => exact hs
  | cons entry calls ih =>
      have hcount : appended + appends (entry :: calls) =
          appended + entry.1.isAppend.toNat + appends calls := by
        unfold appends
        rw [List.countP_cons, Nat.add_assoc, Nat.add_comm (entry.1.isAppend.toNat)]
        cases entry.1.isAppend <;> rfl
      rw [hcount] at hcalls ⊢
      exact ih (audited_make hs entry (by omega)) hcalls

/-- What a run that started from some files has left on record. -/
structure Accounted (directory : String) (start : FileTree) (s : AuditedRun α) : Prop where
  /-- No two networks have a record of one name. -/
  apart : (s.audit.closed.map (fun log => recordPath directory log.number)).Nodup
  recorded : ∀ log ∈ s.audit.closed, log.RecordedIn directory start s.files
  /-- Where no network was replaced, no record was written. -/
  untouched : ∀ k, (∀ log ∈ s.audit.closed, log.number ≠ k) →
    start.Keeps s.files (recordPath directory k)
  /-- No record was written twice. -/
  once : ∀ k, (s.files.writings (recordPath directory k)).length ≤
    (start.writings (recordPath directory k)).length + 1
  /-- The audit knows the network that is held by its number and its answers. -/
  logged : Logged s.learner.number s.learner.network? s.audit.held
  /-- An answer that is given next is the last one of the network that is held then. -/
  answered : ∀ (cancelled : Cancellation) (node : String) (p : α),
    (s.learner.query ⟨s.files, cancelled⟩ node).1 = .ok p →
    ∃ id log, s.learner.graph.nodeId? node = some id ∧
      (s.make (.query node, cancelled)).audit.held = some log ∧
      log.answers.getLast? = some (id, p)

theorem accounted (hs : s.learner.Audited directory start limit appended s.files s.audit)
    (happended : appended ≤ limit) : s.Accounted directory start where
  apart := by
    rw [← Function.comp_def, ← List.map_map]
    exact hs.books.once.map (recordPath_injective directory)
  recorded := hs.books.recorded
  untouched := hs.books.untouched
  once := by
    intro k
    by_cases hclosed : ∃ log ∈ s.audit.closed, log.number = k
    · obtain ⟨log, hlog, rfl⟩ := hclosed
      obtain ⟨lines, _, _, hwritten⟩ := hs.books.recorded log hlog
      rw [hwritten, List.length_cons]
    · have hkept := hs.books.untouched k (fun log hlog hk => hclosed ⟨log, hlog, hk⟩)
      rw [hkept.written]
      exact Nat.le_succ _
  logged := hs.books.logged
  answered := by
    intro cancelled node p hp
    obtain ⟨id, hid, ⟨earlier, hnoted⟩, n, hn⟩ := hs.answered hp
    have hnext := audited_make hs (.query node, cancelled) happended
    have hlogged := hnext.books.logged
    have hheld : (s.make (.query node, cancelled)).learner.network? = some n := hn
    have haudit : (s.make (.query node, cancelled)).audit = earlier.note [(id, p)] := hnoted
    rw [hheld, haudit] at hlogged
    rw [haudit]
    cases hbefore : earlier.held with
    | none =>
        simp only [QueryAudit.note, hbefore, Option.map_none] at hlogged
        cases hlogged
    | some log =>
        refine ⟨id, { log with answers := log.answers ++ [(id, p)] }, hid, ?_, by simp⟩
        simp only [QueryAudit.note, hbefore, Option.map_some]

/-- No answer is lost, when the records can be written: whatever calls were made, each network that
was replaced has one record of its own, with a line for every node that it answered for, in the
order of the first answers and with the last answer of each. -/
theorem no_answer_lost {kind : LearnerKind}
    (hkind : kind = .iterating ∨ kind = .differentiating) {name : String} {c : LearnerContext α}
    {g : CausalGraph α} {l : Learner α} (hl : Learner.new kind name c g = .ok l)
    {files : FileTree} {calls : List (LearnerCall × Cancellation)}
    (hwritable : ∀ k < appends calls, files.Takes (recordPath c.directory k)) :
    (AuditedRun.of l files calls).Accounted c.directory files := by
  have hstart := Learner.Audited.new hkind hl hwritable
  have hrun := audited_foldl (s := ⟨l, files, .empty⟩) hstart (Nat.zero_add _).le
  exact accounted hrun (Nat.zero_add _).le

/-! ## A street before it was wet -/

section Street

open OneShotLearner FactorGraph

def dryStreet : IteratingLearner ℚ :=
  .new "street" (streetContext 2) wetStreet

theorem dryStreet_lossless {f : FactorGraph ℚ} (hf : compile wetStreet 0 true 2 = .ok f) :
    f.Lossless "000.post.fg" := by
  apply lossless_of_reads _ hf
  simp only [Factor.parseAll, FactorGraph.text, LineReader.ofText, String.toList_ofList]
  decide +kernel

/-- The street when it is asked for rain. -/
def askedStreet : IteratingLearner ℚ :=
  { dryStreet with context := dryStreet.context.recordQuery 0 "rain" }

/-- The first network of the street is created in empty files, and finds rain as likely as not. -/
theorem askedStreet_created :
    ∃ n, (askedStreet.context.createNetwork quietWorkspace
        (threeDigits askedStreet.updates ++ ".post") askedStreet.graph 0 true).1 = .ok n ∧
      (n.predict 0).1 = .ok (1 / 2) := by
  have hvalue : (do
      let f ← (compile wetStreet 0 true 2).toOption
      let backend ← (ExactNetwork.ofFactors "000.post.fg" (streetContext 2).options
        f.factors).toOption
      ((ReplicaNetwork.ofCompiled "000.post" "000.post.fg" wetStreet.nodeCount 0 f.layout
        backend).predict 0).1.toOption) = some (1 / 2) := by
    decide +kernel
  obtain ⟨f, hf, hvalue⟩ := Option.bind_eq_some_iff.mp hvalue
  obtain ⟨backend, hbackend, hvalue⟩ := Option.bind_eq_some_iff.mp hvalue
  have hcompile := eq_ok_of_toOption hf
  have hname : FileTree.PlainName "000.post.fg" := by
    constructor <;> decide +kernel
  obtain ⟨written, hwrite⟩ := hname.write?_empty f.text
  have hread : f.readBack "000.post.fg" (streetContext 2).options = .ok backend := by
    rw [(dryStreet_lossless hcompile).readBack_eq]
    exact eq_ok_of_toOption hbackend
  have hnumber : threeDigits askedStreet.updates ++ ".post" = "000.post" := by decide +kernel
  have hfile : askedStreet.context.fileOf "000.post" = "000.post.fg" := by decide +kernel
  rw [hnumber]
  exact ⟨_, LearnerContext.createNetwork_loaded rfl rfl hcompile (hfile ▸ hwrite)
    (hfile ▸ hread), hfile ▸ eq_ok_of_toOption hvalue⟩

theorem dryStreet_asked :
    (dryStreet.query quietWorkspace "rain").1 = .ok (1 / 2) ∧
      dryStreet.auditQuery quietWorkspace .empty "rain" = ⟨[], some ⟨0, [(0, 1 / 2)]⟩⟩ := by
  obtain ⟨n, hcreate, hanswer⟩ := askedStreet_created
  obtain ⟨hrefresh, haudit⟩ := IteratingLearner.refresh_created (l := askedStreet) (a := .empty)
    rfl rfl rfl (Prod.ext hcreate rfl)
  have hquery : dryStreet.query quietWorkspace "rain" =
      ReplicaNetwork.ask (fun n => n.predict 0) IteratingLearner.keep
        (askedStreet.refresh quietWorkspace) := rfl
  have hp : (dryStreet.query quietWorkspace "rain").1 = .ok (1 / 2) := by
    rw [hquery, ReplicaNetwork.ask_of_ok (congrArg Prod.fst hrefresh), hanswer]
    rfl
  refine ⟨hp, ?_⟩
  have hnoted : dryStreet.auditQuery quietWorkspace .empty "rain" =
      (askedStreet.auditRefresh quietWorkspace .empty).note
        (noted 0 (dryStreet.query quietWorkspace "rain").1) := rfl
  rw [hnoted, haudit, hp]
  rfl

/-- The street is asked for rain and then seen wet, so the first network leaves its record. -/
theorem wetStreet_recorded :
    let start : Learner ℚ := .iterating dryStreet
    let calls : List (LearnerCall × Cancellation) :=
      [(.query "rain", .never), (.append [("wet", true)], .never)]
    Learner.new .iterating "street" (streetContext 2) wetStreet = .ok start ∧
      (∀ k < appends calls, FileTree.empty.Takes (recordPath (streetContext 2).directory k)) ∧
      (AuditedRun.of start .empty calls).audit.closed = [⟨0, [(0, 1 / 2)]⟩] ∧
      (AuditedRun.of start .empty calls).Accounted (streetContext 2).directory .empty := by
  intro start calls
  have hnew : Learner.new .iterating "street" (streetContext 2) wetStreet = .ok start := rfl
  have hwritable : ∀ k < appends calls,
      FileTree.empty.Takes (recordPath (streetContext 2).directory k) := by
    intro k hk
    have hzero : k = 0 := Nat.lt_one_iff.mp hk
    have hpath : recordPath (streetContext 2).directory 0 = "000.query" := by decide +kernel
    have hname : FileTree.PlainName "000.query" := by
      constructor <;> decide +kernel
    subst hzero
    rw [hpath]
    exact ⟨_, hname.place? _, rfl⟩
  have hclosed : (AuditedRun.of start .empty calls).audit =
      (dryStreet.auditQuery quietWorkspace .empty "rain").replace := rfl
  refine ⟨hnew, hwritable, ?_, no_answer_lost (.inl rfl) hnew hwritable⟩
  rw [hclosed, dryStreet_asked.2]
  rfl

end Street

end AuditedRun

end DerivationBelief

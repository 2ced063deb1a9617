import DerivationBelief.LearnerContext
import DerivationBelief.Proofs.QueryRecords
import Mathlib.Tactic

/-!
# An audit of queries

An audit follows a learner from outside.  It notes every answer when it is given, and the number of
a network when the network is compiled; it is never told the name of a record.  The books that it
keeps say that a network which was replaced has left a record of its answers under its number, that
no record has been written twice, and that the network which is held has noted its own answers.
-/

namespace DerivationBelief

variable {α : Type}

/-! ## The audit -/

/-- The number that a network was compiled over, and the answers that it has given. -/
structure NetworkLog (α : Type) where
  number : Nat
  answers : List (Nat × α)

/-- The networks that were replaced, and the one that is held. -/
structure QueryAudit (α : Type) where
  closed : List (NetworkLog α)
  held : Option (NetworkLog α)

namespace QueryAudit

variable (a : QueryAudit α)

def empty : QueryAudit α :=
  ⟨[], none⟩

/-- The network that is held, if any, is dropped. -/
def replace : QueryAudit α :=
  ⟨a.closed ++ a.held.toList, none⟩

/-- A network is taken up. -/
def hold (number : Nat) (answers : List (Nat × α)) : QueryAudit α :=
  { a with held := some ⟨number, answers⟩ }

/-- The network that is held gives answers. -/
def note (answers : List (Nat × α)) : QueryAudit α :=
  { a with held := a.held.map (fun log => { log with answers := log.answers ++ answers }) }

@[simp] theorem note_nil : a.note [] = a := by
  obtain ⟨closed, held⟩ := a
  cases held <;> simp [note]

theorem replace_of_none (hheld : a.held = none) : a.replace = a := by
  obtain ⟨closed, held⟩ := a
  cases hheld
  simp [replace]

end QueryAudit

/-- A network and what the audit knows of it: its number, and its answers as it noted them. -/
inductive Logged (number : Nat) : Option (ReplicaNetwork α) → Option (NetworkLog α) → Prop
  | none : Logged number none none
  | held {n : ReplicaNetwork α} {answers : List (Nat × α)} (hn : n.Answered answers) :
      Logged number (some n) (some ⟨number, answers⟩)

theorem LearnerContext.recordQuery_directory (c : LearnerContext α) (id : Nat) (node : String) :
    (c.recordQuery id node).directory = c.directory := by
  unfold recordQuery
  split <;> rfl

variable [Numeral α]

/-- The record of a network has been written once since the start, and holds its lines. -/
def NetworkLog.RecordedIn (directory : String) (start files : FileTree) (log : NetworkLog α) :
    Prop :=
  ∃ lines, LinesOf log.answers lines ∧
    files.read? (recordPath directory log.number) = some (recordText lines) ∧
    files.writings (recordPath directory log.number) =
      recordText lines :: start.writings (recordPath directory log.number)

/-- The audit of a network with a number, in a directory where the records below a limit can be
written.  No record of another number has been written since the start. -/
structure Books (directory : String) (start : FileTree) (limit : Nat) (files : FileTree)
    (network : Option (ReplicaNetwork α)) (number : Nat) (a : QueryAudit α) : Prop where
  takes : ∀ k < limit, files.Takes (recordPath directory k)
  once : (a.closed.map NetworkLog.number).Nodup
  recorded : ∀ log ∈ a.closed, log.RecordedIn directory start files
  untouched : ∀ k, (∀ log ∈ a.closed, log.number ≠ k) →
    start.Keeps files (recordPath directory k)
  logged : Logged number network a.held
  fresh : network.isSome → ∀ log ∈ a.closed, log.number < number

namespace Books

variable {directory : String} {start : FileTree} {limit : Nat} {files next : FileTree}
  {network : Option (ReplicaNetwork α)} {n m : ReplicaNetwork α} {number : Nat}
  {a : QueryAudit α}

/-- Nothing has been written at the start. -/
theorem opened (htakes : ∀ k < limit, files.Takes (recordPath directory k)) (number : Nat) :
    Books (α := α) directory files limit files none number .empty where
  takes := htakes
  once := List.nodup_nil
  recorded := fun _ hlog => nomatch hlog
  untouched := fun _ _ => .refl files _
  logged := .none
  fresh := fun hsome => nomatch hsome

theorem keepFiles (hb : Books directory start limit files network number a)
    (hkept : KeepsRecords directory files next) :
    Books directory start limit next network number a :=
  { hb with
    takes := fun k hk => (hkept k).takes (hb.takes k hk)
    recorded := by
      intro log hlog
      obtain ⟨lines, hlines, hread, hwritten⟩ := hb.recorded log hlog
      exact ⟨lines, hlines, (hkept log.number).read.trans hread,
        (hkept log.number).written.trans hwritten⟩
    untouched := fun k hk => (hb.untouched k hk).trans (hkept k) }

theorem replace_eq (hb : Books directory start limit files none number a) : a.replace = a := by
  cases hheld : a.held with
  | none => exact a.replace_of_none hheld
  | some log =>
      have hlogged := hb.logged
      rw [hheld] at hlogged
      cases hlogged

/-- Without a network the number does not matter. -/
theorem renumber (hb : Books directory start limit files none number a) (other : Nat) :
    Books directory start limit files none other a where
  takes := hb.takes
  once := hb.once
  recorded := hb.recorded
  untouched := hb.untouched
  logged := by
    have hlogged := hb.logged
    generalize a.held = held at hlogged ⊢
    cases hlogged
    exact .none
  fresh := fun hsome => nomatch hsome

theorem held_eq (hb : Books directory start limit files (some n) number a) :
    ∃ answers, n.Answered answers ∧ a.held = some ⟨number, answers⟩ := by
  have hlogged := hb.logged
  generalize a.held = held at hlogged ⊢
  cases hlogged with
  | held hn => exact ⟨_, hn, rfl⟩

/-- A network that is replaced leaves its record, which no other network has written. -/
theorem replace (hb : Books directory start limit files (some n) number a)
    (hnumber : number < limit) :
    Books directory start limit (files.tryWrite (recordPath directory number) n.queryText) none
      number a.replace := by
  obtain ⟨answers, hn, hheld⟩ := hb.held_eq
  have hbelow := hb.fresh rfl
  have hclosed : a.replace.closed = a.closed ++ [⟨number, answers⟩] := by
    simp [QueryAudit.replace, hheld]
  obtain ⟨hread, hwritten, hstill⟩ := (hb.takes number hnumber).tryWrite n.queryText
  have hkept : ∀ k, k ≠ number → files.Keeps
      (files.tryWrite (recordPath directory number) n.queryText) (recordPath directory k) :=
    fun k hk => keeps_record hk files n.queryText
  constructor
  case takes => exact fun k hk => hstill _ (hb.takes k hk)
  case once =>
    rw [hclosed, List.map_append, List.nodup_append]
    refine ⟨hb.once, List.nodup_singleton _, ?_⟩
    intro earlier hearlier last hlast
    obtain ⟨log, hlog, rfl⟩ := List.mem_map.mp hearlier
    rw [List.mem_singleton.mp hlast]
    exact (hbelow log hlog).ne
  case recorded =>
    intro log hlog
    rw [hclosed, List.mem_append, List.mem_singleton] at hlog
    rcases hlog with hearlier | rfl
    · have hother := hkept log.number (hbelow log hearlier).ne
      obtain ⟨lines, hlines, hold, hremembered⟩ := hb.recorded log hearlier
      exact ⟨lines, hlines, hother.read.trans hold, hother.written.trans hremembered⟩
    · -- The number is new, so its record had not been written before.
      have hbefore := hb.untouched number (fun log hlog => (hbelow log hlog).ne)
      rw [hbefore.written] at hwritten
      refine ⟨n.queries, ?_, hread, hwritten⟩
      rw [hn]
      exact LinesOf.putAll answers
  case untouched =>
    intro k hk
    rw [hclosed] at hk
    have hne : number ≠ k := hk ⟨number, answers⟩ (by simp)
    have hold := hb.untouched k (fun log hlog => hk log (List.mem_append_left _ hlog))
    exact hold.trans (hkept k hne.symm)
  case logged => exact .none
  case fresh => exact fun hsome => nomatch hsome

theorem retire {c : LearnerContext α} {w : Workspace}
    (hb : Books c.directory start limit w.files network number a)
    (hnumber : network.isSome → number < limit) :
    Books c.directory start limit (c.retire w network (threeDigits number ++ ".query")).files
      none number a.replace := by
  cases network with
  | none =>
      rw [hb.replace_eq]
      exact hb
  | some n =>
      have hfiles : (c.retire w (some n) (threeDigits number ++ ".query")).files =
          w.files.tryWrite (recordPath c.directory number) n.queryText := by
        unfold LearnerContext.retire ReplicaNetwork.writeQueries recordPath recordName
        dsimp only
      rw [hfiles]
      exact hb.replace (hnumber rfl)

theorem mem_replace (hb : Books directory start limit files network number a) {log : NetworkLog α}
    (hlog : log ∈ a.replace.closed) : log ∈ a.closed ∨ log.number = number := by
  have hlogged := hb.logged
  unfold QueryAudit.replace at hlog
  rw [List.mem_append] at hlog
  rcases hlog with hclosed | hheld
  · exact Or.inl hclosed
  · rw [Option.mem_toList.mp hheld] at hlogged
    cases hlogged
    exact Or.inr rfl

theorem hold (hb : Books directory start limit files none number a) {answers : List (Nat × α)}
    (hn : n.Answered answers) (hbelow : ∀ log ∈ a.closed, log.number < number) :
    Books directory start limit files (some n) number (a.hold number answers) where
  takes := hb.takes
  once := hb.once
  recorded := hb.recorded
  untouched := hb.untouched
  logged := .held hn
  fresh := fun _ => hbelow

theorem note (hb : Books directory start limit files (some n) number a)
    {answers : List (Nat × α)}
    (hm : ∀ earlier, n.Answered earlier → m.Answered (earlier ++ answers)) :
    Books directory start limit files (some m) number (a.note answers) where
  takes := hb.takes
  once := hb.once
  recorded := hb.recorded
  untouched := hb.untouched
  logged := by
    have hlogged := hb.logged
    unfold QueryAudit.note
    generalize a.held = held at hlogged ⊢
    cases hlogged with
    | held hn => exact .held (hm _ hn)
  fresh := fun _ => hb.fresh rfl

end Books

variable [Scalar α]

/-! ## Asking -/

section Asking

variable {β L : Type}
  {question : ReplicaNetwork α → Outcome NetworkFault β (ReplicaNetwork α)}
  {keep : L → ReplicaNetwork α → L}
  {refreshed : Outcome (LearnerFault α) (ReplicaNetwork α) (L × Workspace)} {a : QueryAudit α}

omit [Numeral α] [Scalar α] in
/-- A question adds to the audit what it notes, if there is a network that can be asked. -/
theorem audited_ask (kept : L → FileTree → QueryAudit α → Prop)
    (notes : Except (LearnerFault α) β → List (Nat × α))
    (hfault : ∀ fault, notes (.error fault) = [])
    (hquestion : ∀ n earlier, n.Answered earlier →
      (question n).2.Answered (earlier ++ notes ((question n).1.mapError .network)))
    (hrefreshed : kept refreshed.2.1 refreshed.2.2.files a)
    (hkeep : ∀ n m answers, refreshed.1 = .ok n →
      (∀ earlier, n.Answered earlier → m.Answered (earlier ++ answers)) →
      kept (keep refreshed.2.1 m) refreshed.2.2.files (a.note answers)) :
    kept (ReplicaNetwork.ask question keep refreshed).2.1
      (ReplicaNetwork.ask question keep refreshed).2.2.files
      (a.note (notes (ReplicaNetwork.ask question keep refreshed).1)) := by
  rcases ReplicaNetwork.ask_cases question keep refreshed with
    ⟨fault, _, hasked⟩ | ⟨n, hn, hasked⟩
  · rw [hasked]
    dsimp only
    rw [hfault, a.note_nil]
    exact hrefreshed
  · rw [hasked]
    exact hkeep n _ _ hn (fun earlier => hquestion n earlier)

omit [Numeral α] in
theorem predict_notes (id : Nat) (n : ReplicaNetwork α) (earlier : List (Nat × α))
    (hn : n.Answered earlier) :
    (n.predict id).2.Answered
      (earlier ++ noted id ((n.predict id).1.mapError (LearnerFault.network (α := α)))) := by
  have hpredicted := hn.predict id
  cases hanswer : (n.predict id).1 <;> rw [hanswer] at hpredicted <;> exact hpredicted

omit [Numeral α] in
theorem posterior_notes (dist : Nat) (n : ReplicaNetwork α) (earlier : List (Nat × α))
    (hn : n.Answered earlier) : (n.posterior dist).2.Answered (earlier ++ []) := by
  rw [List.append_nil]
  exact hn.of_queries (n.posterior_queries dist)

omit [Numeral α] [Scalar α] in
theorem ask_kept {p : β} (hp : (ReplicaNetwork.ask question keep refreshed).1 = .ok p) :
    ∃ n, (ReplicaNetwork.ask question keep refreshed).2.1 = keep refreshed.2.1 n := by
  rcases ReplicaNetwork.ask_cases question keep refreshed with
    ⟨fault, _, hasked⟩ | ⟨n, _, hasked⟩
  · rw [hasked] at hp
    cases hp
  · rw [hasked]
    exact ⟨(question n).2, rfl⟩

end Asking

end DerivationBelief

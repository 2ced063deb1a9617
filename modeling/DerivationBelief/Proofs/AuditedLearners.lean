import DerivationBelief.Proofs.DifferentiatingRuns
import DerivationBelief.Proofs.IteratingSteps
import DerivationBelief.Proofs.QueryAudit
import Mathlib.Tactic

/-!
# Learners that leave records

The books of a learner that learns batch by batch, and of one that grows its graph, are kept by
every call.  The number that a network was compiled over is always that of the learner which holds
it, and no network is compiled over a number whose record has been written.
-/

namespace DerivationBelief

variable {α : Type} [Numeral α] [Scalar α]

/-! ## Learning batch by batch -/

namespace IteratingLearner

/-- The answers that the ranking of an update is made of. -/
def ranked (l : IteratingLearner α) (w : Workspace) (batch : Batch) : List (Nat × α) :=
  let ranking : Option (List (Nat × α × String)) := do
    let created ← (l.context.createNetwork w (threeDigits (l.updates + 1) ++ ".post") l.graph 0
      true).1.toOption
    let bound ← (created.bindBatch batch 0).toOption
    let asked ← (predictAll bound l.context.queried).toOption
    return asked.1
  (ranking.getD []).map (fun entry => (entry.1, entry.2.1))

/-- Every update drops the network before, and takes up its own when it succeeds. -/
def auditBatches :
    List Batch → IteratingLearner α → Workspace → QueryAudit α → QueryAudit α
  | [], _, _, a => a
  | batch :: rest, l, w, a =>
      let (l, w) := l.retire w
      match l.infer w batch with
      | (.error _, _) => a.replace
      | (.ok (network, graph), after) =>
          let next := { l with
            graph, network := some network, pending := rest, updates := l.updates + 1 }
          auditBatches rest next after (a.replace.hold (l.updates + 1) (l.ranked w batch))

def auditRefresh (l : IteratingLearner α) (w : Workspace) (a : QueryAudit α) : QueryAudit α :=
  if l.state = .clean ∧ l.network.isSome then a
  else if l.pending.isEmpty then
    match (l.recompile w).1 with
    | .ok () => a.replace.hold l.updates []
    | .error _ => a.replace
  else auditBatches l.pending l w a

def auditQuery (l : IteratingLearner α) (w : Workspace) (a : QueryAudit α) (node : String) :
    QueryAudit α :=
  match l.graph.nodeId? node with
  | none => a
  | some id =>
      (auditRefresh { l with context := l.context.recordQuery id node } w a).note
        (noted id (l.query w node).1)

/-- The books of a learner that batches were appended to.  Only while it has no network, and a
batch is pending, may the record of its last update have been written. -/
structure Tallies (directory : String) (start : FileTree) (limit appended : Nat)
    (l : IteratingLearner α) (files : FileTree) (a : QueryAudit α) : Prop where
  books : Books directory start limit files l.network l.updates a
  directory_eq : l.context.directory = directory
  counted : l.updates + l.pending.length = appended
  below : ∀ log ∈ a.closed, log.number ≤ l.updates
  unused : l.pending = [] → ∀ log ∈ a.closed, log.number < l.updates

variable {directory : String} {start : FileTree} {limit appended : Nat} {l : IteratingLearner α}
  {w : Workspace} {files : FileTree} {a : QueryAudit α}

omit [Scalar α] in
theorem Tallies.retire (hl : Tallies directory start limit appended l w.files a)
    (hpending : l.pending ≠ []) (happended : appended ≤ limit) :
    Tallies directory start limit appended (l.retire w).1 (l.retire w).2.files a.replace where
  books := by
    have hcounted := hl.counted
    have hsome := List.length_pos_iff.mpr hpending
    have hbooks : Books l.context.directory start limit w.files l.network l.updates a :=
      hl.directory_eq ▸ hl.books
    exact hl.directory_eq ▸ hbooks.retire (fun _ => by omega)
  directory_eq := hl.directory_eq
  counted := hl.counted
  below := by
    intro log hlog
    rcases hl.books.mem_replace hlog with hclosed | hnumber
    · exact hl.below log hclosed
    · exact hnumber.le
  unused := fun hnil => absurd hnil hpending

/-- The network of an update has answered for its ranking, and for nothing else. -/
theorem infer_answered {batch : Batch} {network : ReplicaNetwork α} {g : CausalGraph α}
    (hinfer : (l.infer w batch).1 = .ok (network, g)) : network.Answered (l.ranked w batch) := by
  have hruns := infer_infers l w batch
  generalize l.infer w batch = result at hinfer hruns
  cases hruns with
  | uncreated _ | unbound _ _ | unranked _ _ _ | unlearned _ _ _ _ => cases hinfer
  | @learned _ _ _ _ asked _ _ hcreate hbound hlisted hupdate =>
      cases hinfer
      obtain ⟨compiled, backend, _, _, hcreated⟩ :=
        LearnerContext.createNetwork_ok (c := l.context) (w := w) (by rw [hcreate])
      have hfresh : ReplicaNetwork.Answered _ [] := congrArg ReplicaNetwork.queries hcreated
      have hanswered := hfresh.of_queries (ReplicaNetwork.bindBatch_queries hbound)
      obtain ⟨⟨ranking, last⟩, hasked, hwritten⟩ := bind_eq_ok_iff.mp hlisted
      cases hwritten
      have hupdated := asked.updateGraph_queries l.graph
      rw [hupdate] at hupdated
      unfold ranked
      simpa [hcreate, hbound, hasked, Except.toOption] using
        (hanswered.predictAll hasked).of_queries hupdated

theorem Tallies.update (hl : Tallies directory start limit appended l w.files a)
    (hnetwork : l.network = none) {batch : Batch} {rest : List Batch}
    (hpending : l.pending = batch :: rest) {network : ReplicaNetwork α} {g : CausalGraph α}
    (hinfer : (l.infer w batch).1 = .ok (network, g)) :
    Tallies directory start limit appended
      { l with graph := g, network := some network, pending := rest, updates := l.updates + 1 }
      (l.infer w batch).2.files (a.hold (l.updates + 1) (l.ranked w batch)) where
  books := by
    have hkept := hl.directory_eq ▸ l.infer_keepsRecords w batch
    have hbooks := hl.books.keepFiles hkept
    rw [hnetwork] at hbooks
    exact (hbooks.renumber (l.updates + 1)).hold (infer_answered hinfer)
      (fun log hlog => Nat.lt_succ_of_le (hl.below log hlog))
  directory_eq := hl.directory_eq
  counted := by
    have hcounted := hl.counted
    rw [hpending, List.length_cons] at hcounted
    dsimp only
    omega
  below := fun log hlog => Nat.le_succ_of_le (hl.below log hlog)
  unused := fun _ log hlog => Nat.lt_succ_of_le (hl.below log hlog)

/-- What an attempt to catch up with the batches leaves behind. -/
structure Attempted (directory : String) (start : FileTree) (limit appended : Nat)
    (before : IteratingLearner α)
    (result : Outcome (LearnerFault α) Unit (IteratingLearner α × Workspace))
    (a : QueryAudit α) : Prop where
  tallies : Tallies directory start limit appended result.2.1 result.2.2.files a
  state_eq : result.2.1.state = before.state
  failed : ∀ fault, result.1 = .error fault →
    result.2.1.pending = [] → result.2.1.network = none

theorem Tallies.applies {batches : List Batch}
    {result : Outcome (LearnerFault α) Unit (IteratingLearner α × Workspace)}
    (hruns : Applies batches l w result)
    (hl : Tallies directory start limit appended l w.files a) (happended : appended ≤ limit)
    (hpending : l.pending = batches) :
    Attempted directory start limit appended l result (auditBatches batches l w a) := by
  induction hruns generalizing a with
  | done =>
      exact {
        tallies := hl
        state_eq := rfl
        failed := fun _ hfault => nomatch hfault }
  -- The batch stays in front, so the number of the record is not used again before it has been
  -- learned from.
  | @failed batch rest l w _ _ hinfer =>
      have hretired := hl.retire (hpending ▸ List.cons_ne_nil batch rest) happended
      have hkept := (l.retire w).1.infer_keepsRecords (l.retire w).2 batch
      rw [hinfer] at hkept
      unfold auditBatches
      simp only [hinfer]
      exact {
        tallies := { hretired with
          books := hretired.books.keepFiles (hretired.directory_eq ▸ hkept) }
        state_eq := rfl
        failed := fun _ _ hnil => nomatch hpending.symm.trans hnil }
  | @updated batch rest l w _ _ _ _ hinfer _ ih =>
      have hretired := hl.retire (hpending ▸ List.cons_ne_nil batch rest) happended
      have hupdated := hretired.update rfl hpending (congrArg Prod.fst hinfer)
      rw [hinfer] at hupdated
      unfold auditBatches
      simp only [hinfer]
      have hrest := ih hupdated rfl
      exact {
        tallies := hrest.tallies
        state_eq := hrest.state_eq
        failed := hrest.failed }

theorem recompile_created (hnetwork : l.network = none) {n : ReplicaNetwork α} {after : Workspace}
    (hcreate : l.context.createNetwork w (threeDigits l.updates ++ ".post") l.graph 0 true =
      (.ok n, after)) :
    l.recompile w = (.ok (), { l with network := some n }, after) := by
  unfold IteratingLearner.recompile
  rw [retire_of_none hnetwork]
  dsimp only
  rw [hcreate]

/-- The first network of a learner is taken up by the first refresh. -/
theorem refresh_created (hdirty : l.state = .dirty) (hpending : l.pending = [])
    (hnetwork : l.network = none) {n : ReplicaNetwork α} {after : Workspace}
    (hcreate : l.context.createNetwork w (threeDigits l.updates ++ ".post") l.graph 0 true =
      (.ok n, after)) :
    l.refresh w = (.ok n, { l with network := some n, state := .clean }, after) ∧
      l.auditRefresh w a = a.replace.hold l.updates [] := by
  have hstale : ¬ (l.state = .clean ∧ l.network.isSome) := by simp [hdirty]
  have hempty : l.pending.isEmpty = true := by simp [hpending]
  have hrecompile := recompile_created hnetwork hcreate
  constructor
  · unfold IteratingLearner.refresh
    rw [if_neg hstale, if_pos hempty, hrecompile]
    rfl
  · unfold auditRefresh
    rw [if_neg hstale, if_pos hempty, hrecompile]

theorem Tallies.recompile (hl : Tallies directory start limit appended l w.files a)
    (hpending : l.pending = []) (hnetwork : l.network = none) :
    Attempted directory start limit appended l (l.recompile w)
      (match (l.recompile w).1 with
        | .ok () => a.replace.hold l.updates []
        | .error _ => a.replace) := by
  have hbooks := hl.books
  rw [hnetwork] at hbooks
  rw [hbooks.replace_eq]
  have hkept := l.context.createNetwork_keepsRecords (l.retire w).2
    (threeDigits l.updates ++ ".post") l.graph 0 true
  rw [retire_of_none hnetwork] at hkept
  have hruns := recompile_recompiles l w
  generalize l.recompile w = result at hruns
  cases hruns with
  | failed hcreate =>
      rw [retire_of_none hnetwork] at hcreate
      rw [hcreate] at hkept
      exact {
        tallies := { hl with books := hbooks.keepFiles (hl.directory_eq ▸ hkept) }
        state_eq := rfl
        failed := fun _ _ _ => rfl }
  | created hcreate =>
      rw [retire_of_none hnetwork] at hcreate
      rw [hcreate] at hkept
      obtain ⟨compiled, backend, _, _, hcreated⟩ :=
        LearnerContext.createNetwork_ok (c := l.context) (w := w) (by rw [hcreate])
      exact {
        tallies := { hl with
          books := (hbooks.keepFiles (hl.directory_eq ▸ hkept)).hold
            (congrArg ReplicaNetwork.queries hcreated) (hl.unused hpending) }
        state_eq := rfl
        failed := fun _ hfault => nomatch hfault }

/-- An answer was noted, and the network that gave it is held. -/
theorem auditQuery_ok (a : QueryAudit α) {node : String} {p : α}
    (hp : (l.query w node).1 = .ok p) :
    ∃ id, l.graph.nodeId? node = some id ∧
      (∃ earlier, l.auditQuery w a node = QueryAudit.note earlier [(id, p)]) ∧
      ∃ n, (l.query w node).2.1.network = some n := by
  unfold auditQuery
  rw [hp]
  unfold IteratingLearner.query at hp ⊢
  cases hid : l.graph.nodeId? node with
  | none => simp [hid] at hp
  | some id =>
      simp only [hid] at hp ⊢
      obtain ⟨n, hasked⟩ := ask_kept hp
      refine ⟨id, rfl, ⟨_, rfl⟩, n, ?_⟩
      rw [hasked]
      rfl

/-- The books of a learner between calls.  A learner that has nothing to learn from compiles a
network only if it has none, so that leaves no record. -/
structure Audited (directory : String) (start : FileTree) (limit appended : Nat)
    (l : IteratingLearner α) (files : FileTree) (a : QueryAudit α) : Prop
    extends Tallies directory start limit appended l files a where
  idle : l.state = .dirty → l.pending = [] → l.network = none

theorem Audited.attempt (hl : Audited directory start limit appended l w.files a)
    (happended : appended ≤ limit) (hstale : ¬ (l.state = .clean ∧ l.network.isSome)) :
    Attempted directory start limit appended l (l.catchUp w) (l.auditRefresh w a) := by
  unfold catchUp auditRefresh
  rw [if_neg hstale]
  by_cases hempty : l.pending.isEmpty = true
  · have hpending : l.pending = [] := List.isEmpty_iff.mp hempty
    have hnetwork : l.network = none := by
      cases hstate : l.state with
      | dirty => exact hl.idle hstate hpending
      | clean => simpa [hstate] using hstale
    rw [if_pos hempty, if_pos hempty]
    exact hl.toTallies.recompile hpending hnetwork
  · rw [if_neg hempty, if_neg hempty]
    exact hl.toTallies.applies (applyBatches_applies l.pending l w) happended rfl

theorem Audited.refresh (hl : Audited directory start limit appended l w.files a)
    (happended : appended ≤ limit) :
    Audited directory start limit appended (l.refresh w).2.1 (l.refresh w).2.2.files
        (l.auditRefresh w a) ∧
      ∀ n, (l.refresh w).1 = .ok n →
        (l.refresh w).2.1.network = some n ∧ (l.refresh w).2.1.state = .clean := by
  have hruns := refresh_refreshes l w
  generalize l.refresh w = result at hruns
  cases hruns with
  | current hclean hn =>
      have haudit : l.auditRefresh w a = a := if_pos ⟨hclean, by rw [hn]; rfl⟩
      rw [haudit]
      refine ⟨hl, ?_⟩
      intro m hm
      cases hm
      exact ⟨hn, hclean⟩
  | @failed _ _ fault hstale hcaught =>
      have hattempted := hl.attempt happended hstale
      rw [hcaught] at hattempted
      refine ⟨?_, fun _ hok => nomatch hok⟩
      exact {
        toTallies := hattempted.tallies
        idle := fun _ => hattempted.failed fault rfl }
  | caught hstale hcaught hn =>
      have hattempted := hl.attempt happended hstale
      rw [hcaught] at hattempted
      refine ⟨{ toTallies := { hattempted.tallies with }, idle := fun hdirty => nomatch hdirty }, ?_⟩
      intro m hm
      cases hm
      exact ⟨hn, rfl⟩

omit [Scalar α] in
/-- The network of a clean learner may answer more. -/
theorem Audited.taken (hl : Audited directory start limit appended l files a)
    {n m : ReplicaNetwork α} (hnetwork : l.network = some n) (hclean : l.state = .clean)
    {answers : List (Nat × α)}
    (hm : ∀ earlier, n.Answered earlier → m.Answered (earlier ++ answers)) :
    Audited directory start limit appended (l.keep m) files (a.note answers) where
  books := by
    have hbooks := hl.books
    rw [hnetwork] at hbooks
    exact hbooks.note hm
  directory_eq := hl.directory_eq
  counted := hl.counted
  below := hl.below
  unused := hl.unused
  idle := fun hdirty => nomatch hclean.symm.trans hdirty

theorem Audited.ask (hl : Audited directory start limit appended l w.files a)
    (happended : appended ≤ limit) {β : Type}
    {question : ReplicaNetwork α → Outcome NetworkFault β (ReplicaNetwork α)}
    (notes : Except (LearnerFault α) β → List (Nat × α))
    (hfault : ∀ fault, notes (.error fault) = [])
    (hquestion : ∀ n earlier, n.Answered earlier →
      (question n).2.Answered (earlier ++ notes ((question n).1.mapError .network))) :
    Audited directory start limit appended (ReplicaNetwork.ask question keep (l.refresh w)).2.1
      (ReplicaNetwork.ask question keep (l.refresh w)).2.2.files
      ((l.auditRefresh w a).note (notes (ReplicaNetwork.ask question keep (l.refresh w)).1)) := by
  obtain ⟨hrefreshed, hok⟩ := hl.refresh happended
  apply audited_ask (Audited directory start limit appended) notes hfault hquestion hrefreshed
  intro n m answers hn hm
  exact hrefreshed.taken (hok n hn).1 (hok n hn).2 hm

omit [Scalar α] in
theorem Audited.recordQuery (hl : Audited directory start limit appended l files a) (id : Nat)
    (node : String) :
    Audited directory start limit appended { l with context := l.context.recordQuery id node }
      files a :=
  { hl with
    directory_eq := (l.context.recordQuery_directory id node).trans hl.directory_eq }

theorem Audited.query (hl : Audited directory start limit appended l w.files a)
    (happended : appended ≤ limit) (node : String) :
    Audited directory start limit appended (l.query w node).2.1 (l.query w node).2.2.files
      (l.auditQuery w a node) := by
  unfold auditQuery IteratingLearner.query
  cases l.graph.nodeId? node with
  | none => exact hl
  | some id =>
      exact (hl.recordQuery id node).ask happended (noted id) (fun _ => rfl) (predict_notes id)

theorem Audited.posterior (hl : Audited directory start limit appended l w.files a)
    (happended : appended ≤ limit) (dist : Nat) :
    Audited directory start limit appended (l.posterior w dist).2.1 (l.posterior w dist).2.2.files
      (l.auditRefresh w a) := by
  have hasked := hl.ask happended (fun _ => []) (fun _ => rfl) (posterior_notes dist)
  rwa [QueryAudit.note_nil] at hasked

omit [Scalar α] in
theorem Audited.append (hl : Audited directory start limit appended l w.files a)
    (happended : appended < limit) (observation : Observation) :
    Audited directory start limit (appended + 1) (l.append w observation).1
      (l.append w observation).2.files a.replace := by
  have htallies : Tallies directory start limit (appended + 1)
      { l with pending := l.pending ++ [l.graph.batchOf observation] } w.files a := {
    books := hl.books
    directory_eq := hl.directory_eq
    counted := by
      have hcounted := hl.counted
      simp only [List.length_append, List.length_singleton]
      omega
    below := hl.below
    unused := fun hnil => absurd hnil (by simp) }
  have hretired := htallies.retire (by simp) happended
  exact {
    toTallies := { hretired with }
    idle := fun _ _ => rfl }

omit [Scalar α] in
theorem Audited.new (name : String) (c : LearnerContext α) (g : CausalGraph α) {files : FileTree}
    {limit : Nat} (htakes : ∀ k < limit, files.Takes (recordPath c.directory k)) :
    Audited c.directory files limit 0 (new name c g) files QueryAudit.empty where
  books := .opened htakes 0
  directory_eq := rfl
  counted := rfl
  below := fun _ hlog => nomatch hlog
  unused := fun _ _ hlog => nomatch hlog
  idle := fun _ _ => rfl

end IteratingLearner

/-! ## Learning by growing the graph -/

namespace DifferentiatingLearner

/-- A refresh that is not current takes up a network over all rounds, and drops the old one even
when it fails after that. -/
def auditRefresh (l : DifferentiatingLearner α) (w : Workspace) (a : QueryAudit α) :
    QueryAudit α :=
  if l.state = .clean ∧ l.network.isSome then a
  else
    match l.refresh w with
    | (.ok _, _, _) => a.replace.hold l.rounds.length []
    | (.error _, next, _) => if next.network.isSome then a else a.replace

def auditQuery (l : DifferentiatingLearner α) (w : Workspace) (a : QueryAudit α) (node : String) :
    QueryAudit α :=
  match l.graph.nodeId? node with
  | none => a
  | some id =>
      (auditRefresh { l with context := l.context.recordQuery id node } w a).note
        (noted id (l.query w node).1)

/-- The books of a learner between calls.  A learner that is dirty has dropped its network at an
append, where the record was left, and a refresh finds none to drop. -/
structure Audited (directory : String) (start : FileTree) (limit appended : Nat)
    (l : DifferentiatingLearner α) (files : FileTree) (a : QueryAudit α) : Prop where
  books : Books directory start limit files l.network l.rounds.length a
  directory_eq : l.context.directory = directory
  counted : l.rounds.length = appended
  unused : ∀ log ∈ a.closed, log.number < l.rounds.length
  idle : l.state = .dirty → l.network = none

variable {directory : String} {start : FileTree} {limit appended : Nat}
  {l : DifferentiatingLearner α} {w : Workspace} {files : FileTree} {a : QueryAudit α}

/-- An answer was noted, and the network that gave it is held. -/
theorem auditQuery_ok (a : QueryAudit α) {node : String} {p : α}
    (hp : (l.query w node).1 = .ok p) :
    ∃ id, l.graph.nodeId? node = some id ∧
      (∃ earlier, l.auditQuery w a node = QueryAudit.note earlier [(id, p)]) ∧
      ∃ n, (l.query w node).2.1.network = some n := by
  unfold auditQuery
  rw [hp]
  unfold DifferentiatingLearner.query at hp ⊢
  cases hid : l.graph.nodeId? node with
  | none => simp [hid] at hp
  | some id =>
      simp only [hid] at hp ⊢
      obtain ⟨n, hasked⟩ := ask_kept hp
      refine ⟨id, rfl, ⟨_, rfl⟩, n, ?_⟩
      rw [hasked]
      rfl

theorem build_answered {n : ReplicaNetwork α} (hn : (l.build w).1 = .ok n) : n.Answered [] := by
  obtain ⟨g, _, hobserved⟩ := build_ok hn
  obtain ⟨created, hcreated, hbound⟩ := observed_ok hobserved
  obtain ⟨compiled, backend, _, _, rfl⟩ := LearnerContext.createNetwork_ok hcreated
  exact ReplicaNetwork.bindBatch_queries hbound

theorem Audited.refresh (hl : Audited directory start limit appended l w.files a) :
    Audited directory start limit appended (l.refresh w).2.1 (l.refresh w).2.2.files
        (l.auditRefresh w a) ∧
      ∀ n, (l.refresh w).1 = .ok n →
        (l.refresh w).2.1.network = some n ∧ (l.refresh w).2.1.state = .clean := by
  have hkept := l.refresh_keepsRecords w
  rw [hl.directory_eq] at hkept
  unfold auditRefresh
  by_cases hcurrent : l.state = .clean ∧ l.network.isSome
  · obtain ⟨n, hn⟩ := Option.isSome_iff_exists.mp hcurrent.2
    have hrefresh : l.refresh w = (.ok n, l, w) := by
      unfold DifferentiatingLearner.refresh
      simp only [hcurrent.1, hn]
    rw [if_pos hcurrent, hrefresh]
    refine ⟨hl, ?_⟩
    intro m hm
    cases hm
    exact ⟨hn, hcurrent.1⟩
  · rw [if_neg hcurrent]
    -- A network that is not current has been dropped already.
    have hnetwork : l.network = none := by
      cases hstate : l.state with
      | dirty => exact hl.idle hstate
      | clean => simpa [hstate] using hcurrent
    have hbooks := hl.books
    rw [hnetwork] at hbooks
    rcases l.refresh_cases w with ⟨n, _, hn, _⟩ | ⟨fault, w', hrefresh | hrefresh⟩ |
      ⟨n, g, w', w'', hbuilt, hrefresh⟩
    · cases hnetwork.symm.trans hn
    · rw [hrefresh] at hkept ⊢
      dsimp only
      rw [hnetwork, if_neg (by simp), hbooks.replace_eq]
      refine ⟨?_, fun _ hok => nomatch hok⟩
      exact { hl with books := hl.books.keepFiles hkept }
    · rw [hrefresh] at hkept ⊢
      dsimp only
      rw [if_neg (by simp), hbooks.replace_eq]
      refine ⟨?_, fun _ hok => nomatch hok⟩
      exact { hl with
        books := hbooks.keepFiles hkept
        idle := fun _ => rfl }
    · rw [hrefresh] at hkept ⊢
      dsimp only
      rw [hbooks.replace_eq]
      refine ⟨?_, ?_⟩
      · exact { hl with
          books := (hbooks.keepFiles hkept).hold (build_answered hbuilt) hl.unused
          idle := fun hdirty => nomatch hdirty }
      · intro m hm
        cases hm
        exact ⟨rfl, rfl⟩

omit [Scalar α] in
theorem Audited.taken (hl : Audited directory start limit appended l files a)
    {n m : ReplicaNetwork α} (hnetwork : l.network = some n) (hclean : l.state = .clean)
    {answers : List (Nat × α)}
    (hm : ∀ earlier, n.Answered earlier → m.Answered (earlier ++ answers)) :
    Audited directory start limit appended (l.keep m) files (a.note answers) where
  books := by
    have hbooks := hl.books
    rw [hnetwork] at hbooks
    exact hbooks.note hm
  directory_eq := hl.directory_eq
  counted := hl.counted
  unused := hl.unused
  idle := fun hdirty => nomatch hclean.symm.trans hdirty

theorem Audited.ask (hl : Audited directory start limit appended l w.files a)
    {β : Type}
    {question : ReplicaNetwork α → Outcome NetworkFault β (ReplicaNetwork α)}
    (notes : Except (LearnerFault α) β → List (Nat × α))
    (hfault : ∀ fault, notes (.error fault) = [])
    (hquestion : ∀ n earlier, n.Answered earlier →
      (question n).2.Answered (earlier ++ notes ((question n).1.mapError .network))) :
    Audited directory start limit appended (ReplicaNetwork.ask question keep (l.refresh w)).2.1
      (ReplicaNetwork.ask question keep (l.refresh w)).2.2.files
      ((l.auditRefresh w a).note (notes (ReplicaNetwork.ask question keep (l.refresh w)).1)) := by
  obtain ⟨hrefreshed, hok⟩ := hl.refresh
  apply audited_ask (Audited directory start limit appended) notes hfault hquestion hrefreshed
  intro n m answers hn hm
  exact hrefreshed.taken (hok n hn).1 (hok n hn).2 hm

omit [Scalar α] in
theorem Audited.recordQuery (hl : Audited directory start limit appended l files a) (id : Nat)
    (node : String) :
    Audited directory start limit appended { l with context := l.context.recordQuery id node }
      files a :=
  { hl with
    directory_eq := (l.context.recordQuery_directory id node).trans hl.directory_eq }

theorem Audited.query (hl : Audited directory start limit appended l w.files a)
    (node : String) :
    Audited directory start limit appended (l.query w node).2.1 (l.query w node).2.2.files
      (l.auditQuery w a node) := by
  unfold auditQuery DifferentiatingLearner.query
  cases l.graph.nodeId? node with
  | none => exact hl
  | some id =>
      exact (hl.recordQuery id node).ask (noted id) (fun _ => rfl) (predict_notes id)

theorem Audited.posterior (hl : Audited directory start limit appended l w.files a)
    (dist : Nat) :
    Audited directory start limit appended (l.posterior w dist).2.1 (l.posterior w dist).2.2.files
      (l.auditRefresh w a) := by
  have hasked := hl.ask (fun _ => []) (fun _ => rfl) (posterior_notes dist)
  rwa [QueryAudit.note_nil] at hasked

theorem Audited.append (hl : Audited directory start limit appended l w.files a)
    (happended : appended < limit) (observation : Observation) :
    Audited directory start limit (appended + 1) (l.append w observation).1
      (l.append w observation).2.files a.replace := by
  have hrounds : (l.append w observation).1.rounds.length = l.rounds.length + 1 := by
    simp [DifferentiatingLearner.append]
  have hcounted := hl.counted
  constructor
  case books =>
    have hbooks : Books l.context.directory start limit w.files l.network l.rounds.length a :=
      hl.directory_eq ▸ hl.books
    have hretired := hbooks.retire (fun _ => by omega)
    rw [hl.directory_eq] at hretired
    exact hretired.renumber _
  case directory_eq => exact hl.directory_eq
  case counted => rw [hrounds, hcounted]
  case unused =>
    intro log hlog
    rw [hrounds]
    rcases hl.books.mem_replace hlog with hclosed | hnumber
    · exact Nat.lt_succ_of_lt (hl.unused log hclosed)
    · exact Nat.lt_succ_of_le hnumber.le
  case idle => exact fun _ => rfl

omit [Numeral α] in
theorem new_eq {name : String} {c : LearnerContext α} {g : CausalGraph α}
    (hl : new name c g = .ok l) :
    l.context = c ∧ l.rounds = [] ∧ l.network = none := by
  obtain ⟨canonical, _, hl⟩ := bind_eq_ok_iff.mp hl
  cases hl
  exact ⟨rfl, rfl, rfl⟩

theorem Audited.new {name : String} {c : LearnerContext α} {g : CausalGraph α}
    (hl : new name c g = .ok l) (htakes : ∀ k < limit, files.Takes (recordPath c.directory k)) :
    Audited c.directory files limit 0 l files QueryAudit.empty := by
  obtain ⟨hcontext, hrounds, hnetwork⟩ := new_eq hl
  constructor
  case books =>
    rw [hnetwork]
    exact .opened htakes _
  case directory_eq => rw [hcontext]
  case counted => simp [hrounds]
  case unused => exact fun _ hlog => nomatch hlog
  case idle => exact fun _ => hnetwork

end DifferentiatingLearner

end DerivationBelief

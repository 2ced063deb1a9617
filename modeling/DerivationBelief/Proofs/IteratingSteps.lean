import DerivationBelief.IteratingLearner
import Mathlib.Tactic

/-!
# Steps of a learner that iterates

An update compiles a network, binds its batch, ranks the nodes that were asked for and takes the
posteriors over, and may stop at each of these.  Batches are applied until one of them fails.  A
refresh finds the learner current, or catches up with what is pending and holds the network that it
comes to.  It succeeds exactly when each of these steps does.
-/

namespace DerivationBelief

variable {α : Type} [Scalar α] [Numeral α]

namespace IteratingLearner

variable {l last : IteratingLearner α} {w after : Workspace}

/-! ## The update of one batch -/

/-- How far the update of a batch may come. -/
inductive Infers (l : IteratingLearner α) (w : Workspace) (batch : Batch) :
    Outcome (LearnerFault α) (ReplicaNetwork α × CausalGraph α) Workspace → Prop
  | uncreated {after : Workspace} {fault : LearnerFault α}
      (hcreate : l.context.createNetwork w (threeDigits (l.updates + 1) ++ ".post") l.graph 0 true =
        (.error fault, after)) : Infers l w batch (.error fault, after)
  | unbound {after : Workspace} {fresh : ReplicaNetwork α} {fault : LearnerFault α}
      (hcreate : l.context.createNetwork w (threeDigits (l.updates + 1) ++ ".post") l.graph 0 true =
        (.ok fresh, after))
      (hbound : fresh.bindBatch batch 0 = .error fault) : Infers l w batch (.error fault, after)
  | unranked {after : Workspace} {fresh bound : ReplicaNetwork α} {fault : LearnerFault α}
      (hcreate : l.context.createNetwork w (threeDigits (l.updates + 1) ++ ".post") l.graph 0 true =
        (.ok fresh, after))
      (hbound : fresh.bindBatch batch 0 = .ok bound)
      (hranked : writeRanking l.context bound after (threeDigits (l.updates + 1) ++ ".local.list") =
        .error fault) : Infers l w batch (.error fault, after)
  | unlearned {after listed : Workspace} {fresh bound ranked last : ReplicaNetwork α}
      {fault : LearnerFault α}
      (hcreate : l.context.createNetwork w (threeDigits (l.updates + 1) ++ ".post") l.graph 0 true =
        (.ok fresh, after))
      (hbound : fresh.bindBatch batch 0 = .ok bound)
      (hranked : writeRanking l.context bound after (threeDigits (l.updates + 1) ++ ".local.list") =
        .ok (ranked, listed))
      (hupdate : ranked.updateGraph l.graph = (.error fault, last)) :
      Infers l w batch (.error fault, listed)
  | learned {after listed : Workspace} {fresh bound ranked last : ReplicaNetwork α}
      {graph : CausalGraph α}
      (hcreate : l.context.createNetwork w (threeDigits (l.updates + 1) ++ ".post") l.graph 0 true =
        (.ok fresh, after))
      (hbound : fresh.bindBatch batch 0 = .ok bound)
      (hranked : writeRanking l.context bound after (threeDigits (l.updates + 1) ++ ".local.list") =
        .ok (ranked, listed))
      (hupdate : ranked.updateGraph l.graph = (.ok graph, last)) :
      Infers l w batch (.ok (last, graph), listed)

theorem infer_infers (l : IteratingLearner α) (w : Workspace) (batch : Batch) :
    Infers l w batch (l.infer w batch) := by
  unfold infer
  dsimp only
  split
  next hcreate => exact .uncreated hcreate
  next hcreate =>
    split
    next hbound => exact .unbound hcreate hbound
    next hbound =>
      split
      next hranked => exact .unranked hcreate hbound hranked
      next hranked =>
        split
        next hupdate => exact .unlearned hcreate hbound hranked hupdate
        next hupdate => exact .learned hcreate hbound hranked hupdate

theorem Infers.infer_eq {batch : Batch}
    {result : Outcome (LearnerFault α) (ReplicaNetwork α × CausalGraph α) Workspace}
    (hruns : Infers l w batch result) : l.infer w batch = result := by
  unfold infer
  cases hruns with
  | uncreated hcreate => simp only [hcreate]
  | unbound hcreate hbound => simp only [hcreate, hbound]
  | unranked hcreate hbound hranked => simp only [hcreate, hbound, hranked]
  | unlearned hcreate hbound hranked hupdate => simp only [hcreate, hbound, hranked, hupdate]
  | learned hcreate hbound hranked hupdate => simp only [hcreate, hbound, hranked, hupdate]

/-! ## Catching up -/

omit [Scalar α] in
theorem retire_of_none (hnetwork : l.network = none) : l.retire w = (l, w) := by
  obtain ⟨name, context, graph, pending, network, updates, state⟩ := l
  cases hnetwork
  rfl

/-- Batches are applied one after the other, until one of them fails. -/
inductive Applies : List Batch → IteratingLearner α → Workspace →
    Outcome (LearnerFault α) Unit (IteratingLearner α × Workspace) → Prop
  | done {l : IteratingLearner α} {w : Workspace} : Applies [] l w (.ok (), l, w)
  | failed {batch : Batch} {rest : List Batch} {l : IteratingLearner α} {w after : Workspace}
      {fault : LearnerFault α}
      (hinfer : (l.retire w).1.infer (l.retire w).2 batch = (.error fault, after)) :
      Applies (batch :: rest) l w (.error fault, (l.retire w).1, after)
  | updated {batch : Batch} {rest : List Batch} {l : IteratingLearner α} {w after : Workspace}
      {network : ReplicaNetwork α} {graph : CausalGraph α}
      {result : Outcome (LearnerFault α) Unit (IteratingLearner α × Workspace)}
      (hinfer : (l.retire w).1.infer (l.retire w).2 batch = (.ok (network, graph), after))
      (hrest : Applies rest
        { (l.retire w).1 with
          graph, network := some network, pending := rest, updates := l.updates + 1 }
        after result) :
      Applies (batch :: rest) l w result

theorem applyBatches_applies (batches : List Batch) (l : IteratingLearner α) (w : Workspace) :
    Applies batches l w (applyBatches batches l w) := by
  induction batches generalizing l w with
  | nil => exact .done
  | cons batch rest ih =>
      unfold applyBatches
      dsimp only
      split
      next hinfer => exact .failed hinfer
      next hinfer => exact .updated hinfer (ih _ _)

/-- The updates of some batches succeed, each on what the one before has left. -/
inductive UpdatesSucceed : List Batch → IteratingLearner α → Workspace → Prop
  | done {l : IteratingLearner α} {w : Workspace} : UpdatesSucceed [] l w
  | updated {batch : Batch} {rest : List Batch} {l : IteratingLearner α} {w after : Workspace}
      {network : ReplicaNetwork α} {graph : CausalGraph α}
      (hinfers : Infers (l.retire w).1 (l.retire w).2 batch (.ok (network, graph), after))
      (hrest : UpdatesSucceed rest
        { (l.retire w).1 with
          graph, network := some network, pending := rest, updates := l.updates + 1 }
        after) :
      UpdatesSucceed (batch :: rest) l w

theorem applyBatches_ok_iff {batches : List Batch} :
    (applyBatches batches l w).1 = .ok () ↔ UpdatesSucceed batches l w := by
  constructor
  · intro hok
    have hruns := applyBatches_applies batches l w
    generalize applyBatches batches l w = result at hok hruns
    induction hruns with
    | done => exact .done
    | failed _ => cases hok
    | updated hinfer _ ih => exact .updated (hinfer ▸ infer_infers _ _ _) (ih hok)
  · intro hsucceed
    induction hsucceed with
    | done => rfl
    | updated hinfers _ ih =>
        unfold applyBatches
        dsimp only
        rw [hinfers.infer_eq]
        exact ih

/-- A learner that has applied batches holds the network of the last one. -/
theorem Applies.holding {batches : List Batch}
    {result : Outcome (LearnerFault α) Unit (IteratingLearner α × Workspace)}
    (hruns : Applies batches l w result) (hok : result.1 = .ok ())
    (hl : batches = [] → ∃ n, l.network = some n) : ∃ n, result.2.1.network = some n := by
  induction hruns with
  | done => exact hl rfl
  | failed _ => cases hok
  | updated _ _ ih => exact ih hok (fun _ => ⟨_, rfl⟩)

/-- Without pending batches a network of the current priors is created, which may fail. -/
inductive Recompiles (l : IteratingLearner α) (w : Workspace) :
    Outcome (LearnerFault α) Unit (IteratingLearner α × Workspace) → Prop
  | failed {after : Workspace} {fault : LearnerFault α}
      (hcreate : l.context.createNetwork (l.retire w).2 (threeDigits l.updates ++ ".post") l.graph 0
        true = (.error fault, after)) :
      Recompiles l w (.error fault, { l with network := none }, after)
  | created {after : Workspace} {network : ReplicaNetwork α}
      (hcreate : l.context.createNetwork (l.retire w).2 (threeDigits l.updates ++ ".post") l.graph 0
        true = (.ok network, after)) :
      Recompiles l w (.ok (), { l with network := some network }, after)

theorem recompile_recompiles (l : IteratingLearner α) (w : Workspace) :
    Recompiles l w (l.recompile w) := by
  unfold recompile
  dsimp only
  split
  next hcreate => exact .failed hcreate
  next hcreate => exact .created hcreate

/-- Apply the pending batches, or compile the first network when there are none. -/
def catchUp (l : IteratingLearner α) (w : Workspace) :
    Outcome (LearnerFault α) Unit (IteratingLearner α × Workspace) :=
  if l.pending.isEmpty then l.recompile w else applyBatches l.pending l w

theorem catchUp_holding (hcaught : l.catchUp w = (.ok (), last, after)) :
    ∃ n, last.network = some n := by
  unfold catchUp at hcaught
  split at hcaught
  · have hruns := recompile_recompiles l w
    rw [hcaught] at hruns
    cases hruns
    exact ⟨_, rfl⟩
  next hsome =>
    have hruns := applyBatches_applies l.pending l w
    rw [hcaught] at hruns
    exact hruns.holding rfl (fun hnil => absurd (List.isEmpty_iff.mpr hnil) hsome)

/-! ## Refreshing -/

/-- What a refresh may come to. -/
inductive Refreshes (l : IteratingLearner α) (w : Workspace) :
    Outcome (LearnerFault α) (ReplicaNetwork α) (IteratingLearner α × Workspace) → Prop
  | current {n : ReplicaNetwork α} (hclean : l.state = .clean) (hn : l.network = some n) :
      Refreshes l w (.ok n, l, w)
  | failed {last : IteratingLearner α} {after : Workspace} {fault : LearnerFault α}
      (hstale : ¬ (l.state = .clean ∧ l.network.isSome))
      (hcaught : l.catchUp w = (.error fault, last, after)) : Refreshes l w (.error fault, last, after)
  | caught {last : IteratingLearner α} {after : Workspace} {n : ReplicaNetwork α}
      (hstale : ¬ (l.state = .clean ∧ l.network.isSome))
      (hcaught : l.catchUp w = (.ok (), last, after)) (hn : last.network = some n) :
      Refreshes l w (.ok n, { last with state := .clean }, after)

theorem refresh_refreshes (l : IteratingLearner α) (w : Workspace) :
    Refreshes l w (l.refresh w) := by
  unfold refresh
  by_cases hcurrent : l.state = .clean ∧ l.network.isSome
  · obtain ⟨n, hn⟩ := Option.isSome_iff_exists.mp hcurrent.2
    rw [if_pos hcurrent]
    simp only [hn]
    exact .current hcurrent.1 hn
  · have hcatchUp : (if l.pending.isEmpty then l.recompile w
        else applyBatches l.pending l w) = l.catchUp w := rfl
    rw [if_neg hcurrent, hcatchUp]
    rcases hcaught : l.catchUp w with ⟨answer, last, after⟩
    cases answer with
    | error fault => exact .failed hcurrent hcaught
    | ok done =>
        obtain ⟨n, hn⟩ := catchUp_holding hcaught
        simp only [Except.toBool, if_true]
        split
        next hnetwork => exact .caught hcurrent hcaught hnetwork
        next hnone => exact nomatch hn.symm.trans hnone

/-- Whatever there is to do for a refresh succeeds: nothing for a current learner, the updates of
the pending batches, or the first network when there are none. -/
inductive StepsSucceed (l : IteratingLearner α) (w : Workspace) : Prop
  | current {n : ReplicaNetwork α} (hclean : l.state = .clean) (hn : l.network = some n)
  | created {after : Workspace} {network : ReplicaNetwork α} (hpending : l.pending = [])
      (hcreate : l.context.createNetwork (l.retire w).2 (threeDigits l.updates ++ ".post") l.graph 0
        true = (.ok network, after))
  | updated (hpending : l.pending ≠ []) (hupdates : UpdatesSucceed l.pending l w)

theorem catchUp_ok_iff : (l.catchUp w).1 = .ok () ↔
    (l.pending = [] ∧ ∃ network after, l.context.createNetwork (l.retire w).2
        (threeDigits l.updates ++ ".post") l.graph 0 true = (.ok network, after)) ∨
      (l.pending ≠ [] ∧ UpdatesSucceed l.pending l w) := by
  unfold catchUp
  by_cases hpending : l.pending = []
  · have hruns := recompile_recompiles l w
    simp only [hpending, List.isEmpty_nil, if_true, ne_eq, not_true, false_and, or_false, true_and]
    generalize l.recompile w = result at hruns
    cases hruns with
    | failed hcreate => simp [hcreate]
    | created hcreate => simp [hcreate]
  · have hempty : ¬ l.pending.isEmpty = true := fun hnil => hpending (List.isEmpty_iff.mp hnil)
    rw [if_neg hempty, applyBatches_ok_iff]
    simp [hpending]

theorem refresh_ok_iff : (∃ n, (l.refresh w).1 = .ok n) ↔ l.StepsSucceed w := by
  have hruns := refresh_refreshes l w
  generalize l.refresh w = result at hruns
  constructor
  · rintro ⟨n, hn⟩
    cases hruns with
    | current hclean hheld => exact .current hclean hheld
    | failed _ _ => cases hn
    | caught _ hcaught _ =>
        rcases catchUp_ok_iff.mp (congrArg Prod.fst hcaught) with
          ⟨hpending, network, after, hcreate⟩ | ⟨hpending, hupdates⟩
        · exact .created hpending hcreate
        · exact .updated hpending hupdates
  · intro hsucceed
    cases hruns with
    | current _ _ => exact ⟨_, rfl⟩
    | caught _ _ _ => exact ⟨_, rfl⟩
    | failed hstale hcaught =>
        have hok : (l.catchUp w).1 = .ok () := by
          rw [catchUp_ok_iff]
          cases hsucceed with
          | current hclean hn => exact absurd ⟨hclean, by rw [hn]; rfl⟩ hstale
          | created hpending hcreate => exact .inl ⟨hpending, _, _, hcreate⟩
          | updated hpending hupdates => exact .inr ⟨hpending, hupdates⟩
        rw [hcaught] at hok
        cases hok

end IteratingLearner

end DerivationBelief

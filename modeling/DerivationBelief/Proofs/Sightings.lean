import DerivationBelief.Proofs.CompiledAnswers
import DerivationBelief.Proofs.DifferentiatingRuns
import Mathlib.Tactic

/-!
# Sightings of a history

A sighting is a node that a round observed, with how often the node had been observed by then.  The
rounds that a learner keeps are the sightings of its history in order, each with the share of true
observations, whatever counts were carried from round to round.
-/

namespace DerivationBelief

/-- How often a node occurs among observed values, and how often as true. -/
def tally (values : Batch) (node : Nat) : ObservationCount :=
  ⟨values.count (node, true), (values.map Prod.fst).count node⟩

/-- The share of true observations, away from zero and one. -/
def ObservationCount.share {α : Type} [Scalar α] (count : ObservationCount) : α :=
  Scalar.clamp Distribution.epsilon (1 - Distribution.epsilon)
    (Scalar.ofCount count.trues / Scalar.ofCount count.total)

structure Sighting where
  round : Nat
  node : Nat
  /-- What had been counted through the round. -/
  count : ObservationCount

def sightings (history : List Batch) : List Sighting :=
  history.zipIdx.flatMap (fun round => round.1.map (fun entry =>
    ⟨round.2 + 1, entry.1, tally (history.take (round.2 + 1)).flatten entry.1⟩))

/-! ## Counting -/

theorem tally_append (values more : Batch) (node : Nat) :
    tally (values ++ more) node =
      ⟨(tally values node).trues + (tally more node).trues,
        (tally values node).total + (tally more node).total⟩ := by
  simp [tally]

theorem tally_singleton (entry : Nat × Bool) (node : Nat) :
    tally [entry] node = if entry.1 = node then ⟨entry.2.toNat, 1⟩ else ⟨0, 0⟩ := by
  obtain ⟨seen, value⟩ := entry
  by_cases hnode : seen = node
  · cases value <;> simp [tally, hnode]
  · simp [tally, hnode]

theorem tally_trues_le (values : Batch) (node : Nat) :
    (tally values node).trues ≤ (tally values node).total := by
  induction values with
  | nil => exact Nat.le_refl 0
  | cons entry values ih =>
      have hentry : (tally [entry] node).trues ≤ (tally [entry] node).total := by
        rw [tally_singleton]
        split
        · exact Bool.toNat_le entry.2
        · exact Nat.le_refl 0
      rw [← List.singleton_append, tally_append]
      exact Nat.add_le_add hentry ih

namespace DifferentiatingLearner

/-- The counts of a node, which are zero before it is observed. -/
def countOf (counts : List (Nat × ObservationCount)) (node : Nat) : ObservationCount :=
  (Arrival.get? counts node).getD ⟨0, 0⟩

/-- The counts are those of some observed values. -/
def Counts (counts : List (Nat × ObservationCount)) (values : Batch) : Prop :=
  ∀ node, countOf counts node = tally values node

variable {α : Type} [Scalar α] {counts : List (Nat × ObservationCount)} {values batch : Batch}

theorem Counts.countValue (hcounts : Counts counts values) (entry : Nat × Bool) :
    Counts (countValue (α := α) counts entry).1 (values ++ [entry]) ∧
      (countValue (α := α) counts entry).2 =
        (entry.1, (tally (values ++ [entry]) entry.1).share) := by
  have hold : (Arrival.get? counts entry.1).getD ⟨0, 0⟩ = tally values entry.1 := hcounts entry.1
  have hnew : tally (values ++ [entry]) entry.1 =
      ⟨(tally values entry.1).trues + entry.2.toNat, (tally values entry.1).total + 1⟩ := by
    rw [tally_append, tally_singleton, if_pos rfl]
  unfold DifferentiatingLearner.countValue
  rw [hold, hnew]
  refine ⟨?_, rfl⟩
  intro node
  unfold countOf
  dsimp only
  rw [Arrival.get?_put]
  by_cases hnode : entry.1 = node
  · subst hnode
    rw [if_pos rfl, hnew]
    rfl
  · rw [if_neg hnode, tally_append, tally_singleton, if_neg hnode]
    exact hcounts node

theorem countBatch_append (counts : List (Nat × ObservationCount)) (batch : Batch)
    (entry : Nat × Bool) :
    countBatch (α := α) counts (batch ++ [entry]) =
      let before := countBatch (α := α) counts batch
      ((countValue (α := α) before.1 entry).1, before.2 ++ [(countValue before.1 entry).2]) := by
  unfold DifferentiatingLearner.countBatch
  rw [List.foldl_append]
  rfl

/-- A batch counts no node twice, so the count at a value is that of the whole round. -/
theorem Counts.countBatch (hcounts : Counts counts values) (hbatch : (batch.map Prod.fst).Nodup) :
    Counts (countBatch (α := α) counts batch).1 (values ++ batch) ∧
      (countBatch (α := α) counts batch).2 =
        batch.map (fun entry => (entry.1, (tally (values ++ batch) entry.1).share)) := by
  induction batch using List.reverseRecOn with
  | nil => exact ⟨(List.append_nil values).symm ▸ hcounts, rfl⟩
  | append_singleton batch entry ih =>
      rw [List.map_append, List.nodup_append] at hbatch
      obtain ⟨hfront, _, hapart⟩ := hbatch
      obtain ⟨hcounted, hround⟩ := ih hfront
      obtain ⟨hnext, hshare⟩ := hcounted.countValue (α := α) entry
      rw [countBatch_append, ← List.append_assoc]
      refine ⟨hnext, ?_⟩
      dsimp only
      rw [hround, hshare, List.map_append]
      congr 1
      apply List.map_congr_left
      intro earlier hearlier
      have hne : entry.1 ≠ earlier.1 := fun heq =>
        hapart earlier.1 (List.mem_map_of_mem hearlier) entry.1 (by simp) heq.symm
      rw [tally_append (values ++ batch), tally_singleton, if_neg hne]
      rfl

end DifferentiatingLearner

/-! ## The rounds of a history -/

theorem sightings_append (history : List Batch) (batch : Batch) :
    sightings (history ++ [batch]) = sightings history ++ batch.map (fun entry =>
      ⟨history.length + 1, entry.1, tally (history ++ [batch]).flatten entry.1⟩) := by
  unfold sightings
  rw [List.zipIdx_append, List.flatMap_append]
  congr 1
  · apply List.flatMap_congr
    rintro ⟨round, place⟩ hround
    have hplace : place < history.length := List.snd_lt_of_mem_zipIdx hround
    rw [List.take_append_of_le_length hplace]
  · have hall : (history ++ [batch]).take (history.length + 1) = history ++ [batch] :=
      List.take_of_length_le (by simp)
    simp [hall]

namespace DifferentiatingLearner

variable {α : Type} [Scalar α] {history : List Batch}

/-- The observed nodes of all rounds in order, with the number of the round and the share. -/
def flatRounds {α : Type} (rounds : List (List (Nat × α))) : List (Nat × Nat × α) :=
  rounds.zipIdx.flatMap (fun round => round.1.map (fun entry => (round.2 + 1, entry)))

/-- The rounds that are kept of a history are its sightings. -/
theorem flatRounds_countAll (hhistory : ∀ batch ∈ history, (batch.map Prod.fst).Nodup) :
    Counts (countAll (α := α) history).1 history.flatten ∧
      (countAll (α := α) history).2.length = history.length ∧
      flatRounds (countAll (α := α) history).2 =
        (sightings history).map (fun s => (s.round, s.node, s.count.share)) := by
  induction history using List.reverseRecOn with
  | nil => exact ⟨fun _ => rfl, rfl, rfl⟩
  | append_singleton history batch ih =>
      rw [List.forall_mem_append, List.forall_mem_singleton] at hhistory
      obtain ⟨hcounts, hlength, hrounds⟩ := ih hhistory.1
      obtain ⟨hnext, hround⟩ := hcounts.countBatch (α := α) hhistory.2
      have hflat : (history ++ [batch]).flatten = history.flatten ++ batch := by simp
      rw [countAll_append]
      unfold countRound
      dsimp only
      rw [hround]
      refine ⟨hflat ▸ hnext, by simp [hlength], ?_⟩
      unfold flatRounds at hrounds ⊢
      rw [List.zipIdx_append, List.flatMap_append, hrounds, sightings_append, List.map_append,
        hlength, hflat]
      simp [List.map_map, Function.comp_def]

end DifferentiatingLearner

/-! ## Sightings are apart -/

variable {α : Type} {g : CausalGraph α} {history : List Batch}

theorem Sighting.round_le {s : Sighting} (hs : s ∈ sightings history) :
    s.round ≤ history.length := by
  obtain ⟨⟨batch, place⟩, hbatch, hentry⟩ := List.mem_flatMap.mp hs
  obtain ⟨entry, _, rfl⟩ := List.mem_map.mp hentry
  exact List.snd_lt_of_mem_zipIdx hbatch

/-- A node is sighted once in a round, and rounds are told apart by their numbers. -/
theorem sightings_apart (hhistory : ∀ batch ∈ history, (batch.map Prod.fst).Nodup) :
    ((sightings history).map (fun s => (s.round, s.node))).Nodup := by
  induction history using List.reverseRecOn with
  | nil => exact List.nodup_nil
  | append_singleton history batch ih =>
      rw [List.forall_mem_append, List.forall_mem_singleton] at hhistory
      have hbatch : ((batch.map Prod.fst).map (fun node => (history.length + 1, node))).Nodup :=
        hhistory.2.map (fun _ _ heq => (Prod.mk.inj heq).2)
      rw [sightings_append, List.map_append, List.map_map, List.nodup_append]
      rw [List.map_map] at hbatch
      refine ⟨ih hhistory.1, hbatch, ?_⟩
      rintro earlier hearlier later hlater rfl
      obtain ⟨s, hs, hround⟩ := List.mem_map.mp hearlier
      obtain ⟨entry, _, hnew⟩ := List.mem_map.mp hlater
      have hle := Sighting.round_le hs
      have heq : s.round = history.length + 1 := congrArg Prod.fst (hround.trans hnew.symm)
      omega

theorem Sighting.node_lt (hhistory : ∀ batch ∈ history, g.Observes batch) {s : Sighting}
    (hs : s ∈ sightings history) : s.node < g.nodeCount := by
  obtain ⟨⟨batch, place⟩, hbatch, hentry⟩ := List.mem_flatMap.mp hs
  obtain ⟨entry, hmem, rfl⟩ := List.mem_map.mp hentry
  exact (hhistory batch (List.fst_mem_of_mem_zipIdx hbatch)).node_lt entry hmem

theorem tally_total_le (hhistory : ∀ batch ∈ history, (batch.map Prod.fst).Nodup) (node : Nat) :
    (tally history.flatten node).total ≤ history.length := by
  induction history with
  | nil => exact Nat.le_refl 0
  | cons batch history ih =>
      rw [List.forall_mem_cons] at hhistory
      have hbatch : (tally batch node).total ≤ 1 := List.nodup_iff_count_le_one.mp hhistory.1 node
      have hrest := ih hhistory.2
      rw [List.flatten_cons, tally_append, List.length_cons]
      dsimp only
      omega

/-- A sighting counts the round that it is in, and no round more than once. -/
theorem Sighting.count_le (hhistory : ∀ batch ∈ history, (batch.map Prod.fst).Nodup) {s : Sighting}
    (hs : s ∈ sightings history) :
    0 < s.count.total ∧ s.count.trues ≤ s.count.total ∧ s.count.total ≤ s.round := by
  obtain ⟨⟨batch, place⟩, hbatch, hentry⟩ := List.mem_flatMap.mp hs
  obtain ⟨entry, hmem, rfl⟩ := List.mem_map.mp hentry
  refine ⟨?_, tally_trues_le _ _, ?_⟩
  · have hplace : history[place]? = some batch := List.mem_zipIdx_iff_getElem?.mp hbatch
    have htaken : batch ∈ history.take (place + 1) :=
      List.mem_of_getElem? (List.getElem?_take_of_lt (Nat.lt_succ_self place) ▸ hplace)
    have hseen : entry.1 ∈ (history.take (place + 1)).flatten.map Prod.fst :=
      List.mem_map_of_mem (List.mem_flatten_of_mem htaken hmem)
    exact List.count_pos_iff.mpr hseen
  · have hle : (tally (history.take (place + 1)).flatten entry.1).total ≤
        (history.take (place + 1)).length :=
      tally_total_le (fun b hb => hhistory b (List.mem_of_mem_take hb)) entry.1
    exact hle.trans (List.length_take_le _ _)

end DerivationBelief

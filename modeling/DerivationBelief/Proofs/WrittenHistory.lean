import DerivationBelief.Proofs.EstimationPlan
import DerivationBelief.Proofs.EvidenceTable
import DerivationBelief.Proofs.ObservedNodes
import DerivationBelief.Proofs.ParameterFitting
import Mathlib.Tactic

/-!
# Fitting sees the history that was given

A history is written as a table with a column for every node that occurs in it and a line for every
row.  A row may leave nodes out and may be empty, and a history without nodes has no columns at all:
then every line is blank and is still read as a row.  What is read back has one row for each row of
the history, in order, and in it the last value of each node of the row and nothing else.
-/

namespace DerivationBelief.ReplicaNetwork

variable {α : Type} {n : ReplicaNetwork α} {history : List Batch}

/-! ## The files of a fitting -/

/-- The files after a table and then a plan have been written, as far as they can be. -/
def filesWith (tree : FileTree) (tablePath tableText planPath planText : String) : FileTree :=
  match tree.write? tablePath tableText with
  | none => tree
  | some middle => (middle.write? planPath planText).getD middle

/-- Fitting writes the table of the history and the plan of all parameters, and nothing else. -/
theorem fit_files [Scalar α] (hnodes : ∀ row ∈ history, ∀ entry ∈ row, entry.1 < n.nodeCount)
    (tree : FileTree) (directory name : String) (clock : Clock) :
    (n.fit tree directory name history clock).2.2 =
      filesWith tree (joinPath directory (name ++ ".tab")) (n.historyTable history).text
        (joinPath directory (name ++ ".em"))
        (EstimatedFactor.planText (List.range n.offset)) := by
  have hchecked : history.flatten.forM (fun entry => n.checkNode entry.1) = .ok () := by
    rw [forM_eq_ok_iff]
    intro entry hentry
    obtain ⟨row, hrow, hmem⟩ := List.mem_flatten.mp hentry
    exact if_neg (Nat.not_le.mpr (hnodes row hrow entry hmem))
  unfold fit filesWith EvidenceTable.write EstimatedFactor.writePlan
  rw [hchecked]
  dsimp only
  cases htable : tree.write? (joinPath directory (name ++ ".tab"))
      (n.historyTable history).text with
  | none => rfl
  | some middle =>
      dsimp only
      cases hplan : middle.write? (joinPath directory (name ++ ".em"))
          (EstimatedFactor.planText (List.range n.offset)) with
      | none => rfl
      | some last =>
          dsimp only [Option.getD_some]
          cases n.loaded with
          | error fault => rfl
          | ok backend =>
              dsimp only
              split <;> rfl

/-! ## The table of a history -/

theorem historyTable_vars_nodup (n : ReplicaNetwork α) (history : List Batch) :
    (n.historyTable history).vars.Nodup :=
  (Arrival.distinct_nodup _).map (fun _ _ hsame => Nat.add_right_cancel hsame)

theorem historyTable_vars_lt (hnodes : ∀ row ∈ history, ∀ entry ∈ row, entry.1 < n.nodeCount)
    (hsize : n.offset + n.nodeCount ≤ Text.word64) :
    ∀ v ∈ (n.historyTable history).vars, v < Text.word64 := by
  unfold historyTable historyNodes
  rw [List.forall_mem_map]
  intro node hnode
  rw [Arrival.mem_distinct] at hnode
  obtain ⟨row, hrow, hmem⟩ := List.mem_flatMap.mp hnode
  obtain ⟨entry, hentry, rfl⟩ := List.mem_map.mp hmem
  have hlt := hnodes row hrow entry hentry
  omega

/-- The line of a row has a state for the last value of each node of the row. -/
theorem mem_observations_iff {row : Batch} (hrow : row ∈ history) {v : Nat}
    {value : Bool} :
    (v, some value) ∈ (n.historyTable history).vars.zip
        ((historyNodes history).map (Arrival.get? (Arrival.putAll [] row))) ↔
      ∃ node, v = n.offset + node ∧ (Arrival.valuesOf row node).getLast? = some value := by
  have hget : ∀ node, Arrival.get? (Arrival.putAll [] row) node =
      (Arrival.valuesOf row node).getLast? := by
    intro node
    rw [Arrival.get?_putAll]
    exact Option.or_none
  unfold historyTable
  dsimp only
  rw [List.zip_map']
  simp only [List.mem_map, Prod.mk.injEq, hget]
  constructor
  · rintro ⟨node, _, rfl, hlast⟩
    exact ⟨node, Nat.add_comm _ _, hlast⟩
  · rintro ⟨node, rfl, hlast⟩
    have hentry := Arrival.mem_of_getLast?_valuesOf hlast
    refine ⟨node, ?_, Nat.add_comm _ _, hlast⟩
    unfold historyNodes
    rw [Arrival.mem_distinct]
    exact List.mem_flatMap.mpr ⟨row, hrow, List.mem_map.mpr ⟨_, hentry, rfl⟩⟩

/-- A table has one row for each row of a history.  Its states are the last values of the nodes of
the row, each for the variable of its node in replica zero. -/
structure Records (n : ReplicaNetwork α) (history : List Batch) (table : EvidenceTable) : Prop where
  vars_nodup : table.vars.Nodup
  rows_length : table.rows.length = history.length
  observed : ∀ (i : Nat) (row : Batch), history[i]? = some row → ∃ states,
    table.rows[i]? = some states ∧
    states.length = table.vars.length ∧
    ∀ v value, (v, some value) ∈ table.vars.zip states ↔
      ∃ node, v = n.offset + node ∧ (Arrival.valuesOf row node).getLast? = some value

theorem historyTable_records (n : ReplicaNetwork α) (history : List Batch) :
    n.Records history (n.historyTable history) where
  vars_nodup := historyTable_vars_nodup n history
  rows_length := List.length_map _
  observed := by
    intro i row hrow
    have hstates : (n.historyTable history).rows[i]? =
        some ((historyNodes history).map (Arrival.get? (Arrival.putAll [] row))) := by
      unfold historyTable
      rw [List.getElem?_map, hrow]
      rfl
    refine ⟨_, hstates, ?_, fun v value => mem_observations_iff (List.mem_of_getElem? hrow)⟩
    exact historyTable_rectangular n history _ (List.mem_of_getElem? hstates)

/-! ## What is written is read back -/

/-- Fitting to a history of nodes of the network writes a table that is read back, whatever rows are
empty, as one that records the history.  Any table with a state or none for every variable in every
row is read back as it was written, and any plan as its parameters in order.  Variables and the
number of parameters fit 64 bits. -/
theorem written_history_reads_back [Scalar α] (n : ReplicaNetwork α) {history : List Batch}
    (hnodes : ∀ row ∈ history, ∀ entry ∈ row, entry.1 < n.nodeCount)
    (hsize : n.offset + n.nodeCount ≤ Text.word64) (label : String) :
    (∀ tree directory name clock, (n.fit tree directory name history clock).2.2 =
      filesWith tree (joinPath directory (name ++ ".tab")) (n.historyTable history).text
        (joinPath directory (name ++ ".em"))
        (EstimatedFactor.planText (List.range n.offset))) ∧
      (∃ table, EvidenceTable.parse label (n.historyTable history).text = .ok table ∧
        n.Records history table) ∧
      (∀ table : EvidenceTable, table.Rectangular → (∀ v ∈ table.vars, v < Text.word64) →
        EvidenceTable.parse label table.text = .ok table) ∧
      (∀ params : List Nat, params.length < Text.word64 → (∀ d ∈ params, d < Text.word64) →
        EstimatedFactor.readPlan label (EstimatedFactor.planText params) =
          .ok (params.map (fun d => ⟨d, d⟩))) := by
  refine ⟨fit_files hnodes, ⟨n.historyTable history, ?_, historyTable_records n history⟩, ?_, ?_⟩
  · exact EvidenceTable.parse_text (historyTable_rectangular n history)
      (historyTable_vars_lt hnodes hsize)
  · exact fun table htable hvars => EvidenceTable.parse_text htable hvars
  · exact fun params hcount hparams => EstimatedFactor.readPlan_planText hcount hparams label

/-! ## Fitting apart from its files -/

section Fitted

variable [Scalar α] {directory name : String} {clock : Clock}

/-- The parameters of a network, as they stand in the plan of an estimation. -/
def params (n : ReplicaNetwork α) : List EstimatedFactor :=
  (List.range n.offset).map EstimatedFactor.ofParameter

end Fitted

/-! ## A history with gaps -/

/-- Three parameters and two nodes. -/
def pairNetwork : ReplicaNetwork ℚ :=
  { name := "pair", path := "pair.fg", nodeCount := 2, offset := 3, shift := 2, repetitions := 0
    backend := none, activated := false, queries := [] }

/-- A node that changes its mind, an empty row, and a row that leaves a node out. -/
def gappyHistory : List Batch :=
  [[(1, true), (1, false)], [], [(0, true)]]

theorem gappyHistory_reads_back :
    (∀ row ∈ gappyHistory, ∀ entry ∈ row, entry.1 < pairNetwork.nodeCount) ∧
      pairNetwork.offset + pairNetwork.nodeCount ≤ Text.word64 ∧
      (∃ table, EvidenceTable.parse "pair.tab" (pairNetwork.historyTable gappyHistory).text =
        .ok table ∧ pairNetwork.Records gappyHistory table) ∧
      EvidenceTable.parse "pair.tab" (EvidenceTable.text ⟨[], [[], []]⟩) = .ok ⟨[], [[], []]⟩ ∧
      EstimatedFactor.readPlan "pair.tab" (EstimatedFactor.planText [2, 0, 2]) =
        .ok [⟨2, 2⟩, ⟨0, 0⟩, ⟨2, 2⟩] := by
  have hnodes : ∀ row ∈ gappyHistory, ∀ entry ∈ row, entry.1 < pairNetwork.nodeCount := by decide
  have hsize : pairNetwork.offset + pairNetwork.nodeCount ≤ Text.word64 := by decide
  obtain ⟨_, hhistory, htable, hplan⟩ :=
    written_history_reads_back pairNetwork hnodes hsize "pair.tab"
  have hempty : (⟨[], [[], []]⟩ : EvidenceTable).Rectangular := by
    unfold EvidenceTable.Rectangular
    decide
  exact ⟨hnodes, hsize, hhistory, htable _ hempty (by decide), hplan _ (by decide) (by decide)⟩

end DerivationBelief.ReplicaNetwork

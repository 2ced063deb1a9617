import DerivationBelief.LearnerContext
import DerivationBelief.Proofs.EvidenceLookups
import Mathlib.Tactic

/-!
# Rounds of fitting see the rows as they come, and forget their order

What a row adds to the expectation does not depend on the rows before it, and the beliefs of a row
do not depend on the order of its columns.  So a table whose rows are permuted, and whose columns
are those of the permuted rows, has the same expectation.  A round changes values only, which keeps
the tables fit for the next round.
-/

namespace DerivationBelief

/-! ## The evidence of a row -/

namespace TableNetwork

/-- Evidence with the state of a column, if the row has one. -/
def putState (evidence : Evidence) (entry : Nat × Option Bool) : Evidence :=
  match entry.2 with
  | some value => Arrival.put evidence entry.1 value.toNat
  | none => evidence

variable {offset : Nat} {states : Nat → Option Bool} {nodes others : List Nat}

theorem rowEvidence_below {card : Nat → Nat} {vars : List Nat} (hbinary : ∀ v ∈ vars, 2 ≤ card v)
    (row : List (Option Bool)) : Evidence.Below card (rowEvidence vars row) := by
  have hkeeps : ∀ (entries : List (Nat × Option Bool)) (evidence : Evidence),
      (∀ entry ∈ entries, 2 ≤ card entry.1) → evidence.Below card →
        Evidence.Below card (entries.foldl putState evidence) := by
    intro entries
    induction entries with
    | nil => exact fun _ _ hevidence => hevidence
    | cons entry entries ih =>
        intro evidence hentries hevidence
        rw [List.forall_mem_cons] at hentries
        apply ih _ hentries.2
        unfold putState
        cases entry.2 with
        | none => exact hevidence
        | some value =>
            intro bound hbound
            rcases Arrival.mem_put hbound with hold | rfl
            · exact hevidence bound hold
            · exact lt_of_lt_of_le (Bool.toNat_lt value) hentries.1
  apply hkeeps _ []
  · exact fun entry hentry => hbinary entry.1 (List.of_mem_zip hentry).1
  · exact fun _ hnone => absurd hnone List.not_mem_nil

/-! ## The expectation of a table -/

variable {n : TableNetwork ℚ} {params : List EstimatedFactor}

/-- The beliefs of a row added to an expectation, or nothing. -/
def addRow (e : Expectation ℚ) : Option (List (List ℚ)) → Expectation ℚ
  | none => e
  | some beliefs =>
      ⟨e.sums.zipWith (fun sum belief => sum.zipWith (· + ·) belief) beliefs, e.used + 1⟩

/-- What a row comes to does not depend on the expectation so far. -/
theorem expectRow_cases (n : TableNetwork ℚ) (vars : List Nat) (params : List EstimatedFactor)
    (row : List (Option Bool)) :
    (∃ outcome, ∀ e, n.expectRow vars params e row = .ok (addRow e outcome)) ∨
      ∃ fault, ∀ e, n.expectRow vars params e row = .error fault := by
  unfold expectRow
  cases params.mapM (fun p => n.belief (rowEvidence vars row) p.var) with
  | ok beliefs => exact Or.inl ⟨some beliefs, fun _ => rfl⟩
  | error fault =>
      cases fault with
      | inconsistentEvidence => exact Or.inl ⟨none, fun _ => rfl⟩
      | unreadable _ | malformed _ _ _ | tableTooLarge _ _ | variableOutOfRange _ _
      | factorOutOfRange _ _ => exact Or.inr ⟨_, fun _ => rfl⟩

end TableNetwork

namespace ReplicaNetwork

open TableNetwork

variable {n : TableNetwork ℚ} {params : List EstimatedFactor} {card : Nat → Nat}
  {history others : List Batch}

theorem historyTable_rectangular {β : Type} (m : ReplicaNetwork β) (history : List Batch) :
    ∀ row ∈ (m.historyTable history).rows, row.length = (m.historyTable history).vars.length := by
  unfold historyTable
  dsimp only
  rw [List.forall_mem_map]
  intro row _
  rw [List.length_map, List.length_map]

end ReplicaNetwork

/-! ## What a round keeps -/

namespace DenseTable

/-- Everything but the values. -/
def shape (t : DenseTable ℚ) : List Nat × List Nat × Nat :=
  (t.vars, t.cards, t.values.size)

theorem Fits.of_shape {card : Nat → Nat} {t other : DenseTable ℚ} (ht : t.Fits card)
    (hshape : other.shape = t.shape) : other.Fits card := by
  unfold shape at hshape
  rw [Prod.mk.injEq, Prod.mk.injEq] at hshape
  obtain ⟨hvars, hcards, hsize⟩ := hshape
  constructor
  case nodup => rw [hvars]; exact ht.nodup
  case cards_eq => rw [hcards, hvars]; exact ht.cards_eq
  case size_eq => rw [hsize, hvars]; exact ht.size_eq

end DenseTable

namespace TableNetwork

variable {n : TableNetwork ℚ} {params : List EstimatedFactor} {card : Nat → Nat}

def shapes (n : TableNetwork ℚ) : List (List Nat × List Nat × Nat) :=
  n.tables.map DenseTable.shape

theorem fits_of_shapes {m : TableNetwork ℚ} (hn : ∀ t ∈ n.tables, t.Fits card)
    (hshapes : m.shapes = n.shapes) : ∀ t ∈ m.tables, t.Fits card := by
  intro t ht
  have hmem : t.shape ∈ n.shapes := hshapes ▸ List.mem_map_of_mem ht
  obtain ⟨other, hother, hshape⟩ := List.mem_map.mp hmem
  exact (hn other hother).of_shape hshape.symm

/-- No sum of an expectation is longer than the table that it is for. -/
def Bounded (n : TableNetwork ℚ) (params : List EstimatedFactor) (e : Expectation ℚ) : Prop :=
  ∀ entry ∈ params.zip e.sums, ∀ table, n.tables[entry.1.factor]? = some table →
    entry.2.length ≤ table.values.size

theorem snd_of_mem_zip_map {α β : Type} {f : α → β} {as : List α} {entry : α × β}
    (hentry : entry ∈ as.zip (as.map f)) : entry.2 = f entry.1 := by
  induction as with
  | nil => cases hentry
  | cons a as ih =>
      rw [List.map_cons, List.zip_cons_cons, List.mem_cons] at hentry
      rcases hentry with rfl | htail
      · rfl
      · exact ih htail

theorem zeroSums_bounded (n : TableNetwork ℚ) (params : List EstimatedFactor) :
    n.Bounded params ⟨n.zeroSums params, 0⟩ := by
  intro entry hentry table htable
  rw [snd_of_mem_zip_map hentry, htable]
  exact (List.length_replicate).le

theorem mem_zip_zipWith {α β γ : Type} {f : β → γ → β} {as : List α} {bs : List β} {cs : List γ}
    {entry : α × β} (hentry : entry ∈ as.zip (bs.zipWith f cs)) :
    ∃ b c, (entry.1, b) ∈ as.zip bs ∧ entry.2 = f b c := by
  induction as generalizing bs cs with
  | nil => cases hentry
  | cons a as ih =>
      cases bs with
      | nil => cases hentry
      | cons b bs =>
          cases cs with
          | nil => cases hentry
          | cons c cs =>
              rw [List.zipWith_cons_cons, List.zip_cons_cons, List.mem_cons] at hentry
              rcases hentry with rfl | htail
              · exact ⟨b, c, List.mem_cons_self, rfl⟩
              · obtain ⟨x, y, hmem, heq⟩ := ih htail
                exact ⟨x, y, List.mem_cons_of_mem _ hmem, heq⟩

theorem Bounded.addRow {e : Expectation ℚ} (he : n.Bounded params e)
    (outcome : Option (List (List ℚ))) : n.Bounded params (addRow e outcome) := by
  cases outcome with
  | none => exact he
  | some beliefs =>
      intro entry hentry table htable
      obtain ⟨sum, belief, hmem, heq⟩ := mem_zip_zipWith hentry
      rw [heq, List.length_zipWith]
      exact (min_le_left _ _).trans (he _ hmem table htable)

theorem expect_bounded {table : EvidenceTable} {e : Expectation ℚ}
    (he : n.expect table params = .ok e) : n.Bounded params e := by
  refine foldlM_keeps (n.Bounded params) ?_ (n.zeroSums_bounded params) he
  intro sums row next hsums hnext
  rcases n.expectRow_cases table.vars params row with ⟨outcome, hrow⟩ | ⟨fault, hrow⟩
  · cases (hrow sums).symm.trans hnext
    exact hsums.addRow outcome
  · cases (hrow sums).symm.trans hnext

theorem maximiseParam_shapes {m : Maximising ℚ} {entry : EstimatedFactor × List ℚ}
    (hentry : ∀ table, m.model.tables[entry.1.factor]? = some table →
      entry.2.length ≤ table.values.size) (used : Nat) :
    (maximiseParam used m entry).model.shapes = m.model.shapes := by
  unfold maximiseParam
  cases htable : m.model.tables[entry.1.factor]? with
  | none => rfl
  | some table =>
      obtain ⟨hlt, hget⟩ := List.getElem?_eq_some_iff.mp htable
      have hsize := hentry table htable
      unfold shapes
      dsimp only
      rw [List.map_set]
      apply List.ext_getElem?
      intro i
      rw [List.getElem?_set]
      by_cases hi : entry.1.factor = i
      · subst i
        have hlength : entry.1.factor < (m.model.tables.map DenseTable.shape).length := by
          rw [List.length_map]
          exact hlt
        rw [if_pos rfl, if_pos hlength, List.getElem?_map, htable, Option.map_some]
        simp [DenseTable.shape, hsize]
      · rw [if_neg hi]

/-- A round of fitting changes values only. -/
theorem maximise_shapes {e : Expectation ℚ} (he : n.Bounded params e) :
    (n.maximise params e).model.shapes = n.shapes := by
  unfold maximise
  unfold Bounded at he
  generalize params.zip e.sums = entries at he ⊢
  have hkeeps : ∀ m : Maximising ℚ, m.model.shapes = n.shapes →
      (entries.foldl (maximiseParam e.used) m).model.shapes = n.shapes := by
    induction entries with
    | nil => exact fun _ hm => hm
    | cons entry entries ih =>
        rw [List.forall_mem_cons] at he
        intro m hm
        apply ih he.2
        rw [maximiseParam_shapes _ e.used, hm]
        intro table htable
        have hshape : n.shapes[entry.1.factor]? = some table.shape := by
          rw [← hm]
          unfold shapes
          rw [List.getElem?_map, htable, Option.map_some]
        unfold shapes at hshape
        rw [List.getElem?_map] at hshape
        obtain ⟨other, hother, hsame⟩ := Option.map_eq_some_iff.mp hshape
        have hsize : other.values.size = table.values.size :=
          congrArg (fun shape => shape.2.2) hsame
        rw [← hsize]
        exact he.1 other hother
  exact hkeeps _ rfl

end TableNetwork

namespace ReplicaNetwork

open TableNetwork

variable {card : Nat → Nat} {history others : List Batch}

end ReplicaNetwork

end DerivationBelief

import DerivationBelief.ProvenanceGraph
import DerivationBelief.Proofs.CoherentGraph
import Mathlib.Tactic

/-!
# What a table of priors does to a graph

A table made by adding and tying refers only to distributions that it has.  Applied to a graph, such
a table leaves the structure of the graph alone and makes exactly the known nodes that it names
stochastic.
-/

namespace DerivationBelief

variable {α : Type}

namespace PriorTable

/-- All assignments are to distributions of the table. -/
def WellFormed (table : PriorTable α) : Prop :=
  ∀ entry ∈ table.assignments, entry.2 < table.dists.length

def names (table : PriorTable α) : List String :=
  table.assignments.map Prod.fst

theorem empty_wellFormed : (empty : PriorTable α).WellFormed := by
  intro entry hentry
  cases hentry

theorem WellFormed.add {table : PriorTable α} (htable : table.WellFormed) (node : String)
    (d : Distribution α) : (table.add node d).1.WellFormed := by
  intro entry hentry
  simp only [PriorTable.add, List.mem_append, List.mem_singleton, List.length_append,
    List.length_singleton] at hentry ⊢
  rcases hentry with hold | rfl
  · exact (htable entry hold).trans (Nat.lt_succ_self _)
  · exact Nat.lt_succ_self _

theorem names_add (table : PriorTable α) (node : String) (d : Distribution α) :
    (table.add node d).1.names = table.names ++ [node] := by
  simp [names, PriorTable.add]

theorem ofIndependent_spec (priors : List (String × Distribution α)) :
    (ofIndependent priors).WellFormed ∧ (ofIndependent priors).names = priors.map Prod.fst := by
  have hrun : ∀ (rest : List (String × Distribution α)) (table : PriorTable α), table.WellFormed →
      (rest.foldl (fun table entry => (table.add entry.1 entry.2).1) table).WellFormed ∧
        (rest.foldl (fun table entry => (table.add entry.1 entry.2).1) table).names =
          table.names ++ rest.map Prod.fst := by
    intro rest
    induction rest with
    | nil => exact fun table htable => ⟨htable, (List.append_nil _).symm⟩
    | cons entry rest ih =>
        intro table htable
        obtain ⟨hwell, hnames⟩ := ih _ (htable.add entry.1 entry.2)
        refine ⟨hwell, hnames.trans ?_⟩
        rw [names_add, List.append_assoc]
        rfl
  exact hrun priors empty empty_wellFormed

/-! ## Keys -/

variable {κ : Type} [DecidableEq κ]

/-- The keys of a table stand for distributions that the table has. -/
structure Keyed.WellFormed (s : Keyed κ α) : Prop where
  table : s.table.WellFormed
  keys : ∀ entry ∈ s.keys, entry.2 < s.table.dists.length

theorem Keyed.WellFormed.assign {s : Keyed κ α} (hs : s.WellFormed) (node : String) (key : κ)
    (d : Distribution α) :
    ∃ next, s.assign node key d = .ok next ∧ next.WellFormed ∧
      next.table.names = s.table.names ++ [node] := by
  unfold Keyed.assign
  cases hget : Arrival.get? s.keys key with
  | some dist =>
      have hdist : dist < s.table.dists.length := hs.keys _ (Arrival.mem_of_get? hget)
      have htie : s.table.tie node dist =
          .ok { s.table with assignments := s.table.assignments ++ [(node, dist)] } := by
        unfold tie
        rw [if_neg (Nat.not_le_of_lt hdist)]
      refine ⟨{ s with table :=
        { s.table with assignments := s.table.assignments ++ [(node, dist)] } }, ?_, ?_, ?_⟩
      · simp only [htie]
        rfl
      · refine ⟨?_, hs.keys⟩
        intro entry hentry
        rcases List.mem_append.mp hentry with hold | hnew
        · exact hs.table entry hold
        · rw [List.mem_singleton.mp hnew]
          exact hdist
      · simp [names]
  | none =>
      refine ⟨_, rfl, ⟨hs.table.add node d, ?_⟩, names_add s.table node d⟩
      intro entry hentry
      simp only [List.length_append, List.length_singleton]
      rcases Arrival.mem_put hentry with hold | rfl
      · exact (hs.keys entry hold).trans (Nat.lt_succ_self _)
      · exact Nat.lt_succ_self _

/-- Tying by keys never fails. -/
theorem ofKeyed_spec (priors : List (String × κ × Distribution α)) :
    ∃ table, ofKeyed priors = .ok table ∧ table.WellFormed ∧
      table.names = priors.map Prod.fst := by
  have hrun : ∀ (rest : List (String × κ × Distribution α)) (s : Keyed κ α), s.WellFormed →
      ∃ last, rest.foldlM (fun (s : Keyed κ α) entry => s.assign entry.1 entry.2.1 entry.2.2) s =
          .ok last ∧ last.WellFormed ∧ last.table.names = s.table.names ++ rest.map Prod.fst := by
    intro rest
    induction rest with
    | nil => exact fun s hs => ⟨s, rfl, hs, (List.append_nil _).symm⟩
    | cons entry rest ih =>
        intro s hs
        obtain ⟨next, hnext, hwell, hnames⟩ := hs.assign entry.1 entry.2.1 entry.2.2
        obtain ⟨last, hlast, hlastWell, hlastNames⟩ := ih next hwell
        refine ⟨last, foldlM_cons_eq_ok_iff.mpr ⟨next, hnext, hlast⟩, hlastWell, ?_⟩
        rw [hlastNames, hnames, List.append_assoc]
        rfl
  have hstart : Keyed.WellFormed (⟨empty, []⟩ : Keyed κ α) :=
    ⟨empty_wellFormed, fun _ hentry => absurd hentry List.not_mem_nil⟩
  obtain ⟨last, hlast, hwell, hnames⟩ := hrun priors ⟨empty, []⟩ hstart
  refine ⟨last.table, ?_, hwell.table, hnames⟩
  unfold ofKeyed
  rw [hlast]
  rfl

end PriorTable

namespace CausalGraph

theorem isStochastic_iff {g : CausalGraph α} {id : Nat} :
    g.isStochastic id = true ↔ id ∈ g.stochastic.map Prod.fst :=
  Arrival.hasKey_iff

/-- One assignment leaves the structure alone and makes its node stochastic when it is known. -/
theorem Applying.assign_spec {dists : List (Distribution α)} (s : Applying α)
    {entry : String × Nat} (hentry : entry.2 < dists.length) :
    (s.assign dists entry).graph.forgetPriors = s.graph.forgetPriors ∧
      ∀ id, (s.assign dists entry).graph.isStochastic id = true ↔
        s.graph.isStochastic id = true ∨ s.graph.nodeId? entry.1 = some id := by
  unfold Applying.assign
  cases hnode : s.graph.nodeId? entry.1 with
  | none => simp
  | some node =>
      have hstochastic : ∀ (g : CausalGraph α) (dist id : Nat),
          g.stochastic = Arrival.put s.graph.stochastic node dist →
          (g.isStochastic id = true ↔
            s.graph.isStochastic id = true ∨ some node = some id) := by
        intro g dist id hput
        rw [isStochastic_iff, isStochastic_iff, hput, Arrival.keys_put, Arrival.mem_insert,
          Option.some.injEq, @eq_comm _ id node]
      cases hget : Arrival.get? s.entered entry.2 with
      | some dist => exact ⟨rfl, fun id => hstochastic _ dist id rfl⟩
      | none =>
          rw [List.getElem?_eq_getElem hentry]
          exact ⟨rfl, fun id => hstochastic _ s.graph.distCount id rfl⟩

/-- A well-formed table makes the known nodes that it names stochastic and changes nothing else. -/
theorem applyPriors_spec (g : CausalGraph α) {table : PriorTable α} (htable : table.WellFormed) :
    (g.applyPriors table).forgetPriors = g.forgetPriors ∧
      ∀ id, (g.applyPriors table).isStochastic id = true ↔
        g.isStochastic id = true ∨ ∃ node ∈ table.names, g.nodeId? node = some id := by
  have hrun : ∀ (rest : List (String × Nat)) (s : Applying α),
      (∀ entry ∈ rest, entry.2 < table.dists.length) →
      (rest.foldl (Applying.assign table.dists) s).graph.forgetPriors = s.graph.forgetPriors ∧
        ∀ id, (rest.foldl (Applying.assign table.dists) s).graph.isStochastic id = true ↔
          s.graph.isStochastic id = true ∨
            ∃ node ∈ rest.map Prod.fst, s.graph.nodeId? node = some id := by
    intro rest
    induction rest with
    | nil =>
        intro s _
        simp
    | cons entry rest ih =>
        intro s hrest
        rw [List.forall_mem_cons] at hrest
        obtain ⟨hshape, hstochastic⟩ := s.assign_spec hrest.1
        obtain ⟨hlastShape, hlast⟩ := ih (s.assign table.dists entry) hrest.2
        have hnodes : ∀ node, (s.assign table.dists entry).graph.nodeId? node =
            s.graph.nodeId? node := by
          intro node
          have hsame := congrArg CausalGraph.nodes hshape
          exact congrArg (fun nodes => nodeIn? nodes node) hsame
        refine ⟨hlastShape.trans hshape, ?_⟩
        intro id
        rw [List.foldl_cons, hlast id, hstochastic id]
        simp only [hnodes, List.map_cons, List.exists_mem_cons_iff, or_assoc]
  exact hrun table.assignments ⟨g, []⟩ htable

end CausalGraph

end DerivationBelief

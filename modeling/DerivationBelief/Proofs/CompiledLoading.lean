import DerivationBelief.Proofs.NetworkLoading
import DerivationBelief.Proofs.VariableOwnership
import Mathlib.Tactic

/-!
# Loading the factors of a compiled graph

A loaded factor must not contradict the cardinalities of earlier ones, its states must exist, and
its table must not be larger than the limit.  A compiled graph satisfies the first two, so only the
last can prevent its factors from being loaded.

Nothing here depends on the arithmetic, so it holds for machine numbers as well.
-/

namespace DerivationBelief

variable {α ν : Type}

/-! ## Factors that list states that exist -/

namespace Factor

/-- The states that are listed exist. -/
def InTable (f : Factor ν α) : Prop :=
  ∀ entry ∈ f.entries, entry.1 < f.cards.prod

theorem categorical_inTable (var : ν) (weights : List α) : (categorical var weights).InTable := by
  unfold InTable categorical
  dsimp only
  rw [List.forall_mem_map, List.prod_singleton]
  intro entry hentry
  exact List.snd_lt_of_mem_zipIdx hentry

variable [Scalar α]

theorem bernoulli_inTable (var param : ν) (supports : List α) :
    (bernoulli var param supports).InTable := by
  unfold InTable bernoulli
  simp only [List.prod_cons, List.prod_nil]
  intro entry hentry
  obtain ⟨support, hsupport, hmem⟩ := List.mem_flatMap.mp hentry
  have hlt := List.snd_lt_of_mem_zipIdx hsupport
  rcases mem_bernoulliEntries hmem with hstate | hstate <;> omega

theorem constantTrue_inTable (var : ν) : (constantTrue var : Factor ν α).InTable := by
  unfold InTable constantTrue
  simp

theorem clause_inTable (connective : Connective) (head : ν) (control : Option ν)
    (body : List ν) : (clause connective head control body : Factor ν α).InTable := by
  have hstates : ∀ {gated value : Bool} {state : Nat} {entry : Nat × α},
      entry ∈ clauseEntries gated value state → entry.1 < 2 * 2 ^ gated.toNat * (state + 1) := by
    intro gated value state entry hentry
    have hbit : value.toNat < 2 := Bool.toNat_lt value
    cases gated with
    | false =>
        rw [List.mem_singleton.mp hentry]
        simp only [Bool.toNat_false]
        omega
    | true =>
        rcases List.mem_pair.mp hentry with rfl | rfl
        all_goals
          simp only [Bool.toNat_true]
          omega
  have hcount : ((clause connective head control body : Factor ν α)).cards.prod =
      2 * 2 ^ control.isSome.toNat * 2 ^ body.length := by
    cases control with
    | none => simp [clause]
    | some var =>
        simp only [clause, Option.toList_some, List.map_const', List.length_cons,
          List.length_append, List.length_nil, List.prod_replicate, Option.isSome_some,
          Bool.toNat_true]
        ring
  intro entry hentry
  rw [hcount]
  obtain ⟨state, hstate, hmem⟩ := List.mem_flatMap.mp hentry
  exact (hstates hmem).trans_le
    (Nat.mul_le_mul_left _ (Nat.succ_le_of_lt (List.mem_range.mp hstate)))

end Factor

/-! ## Loading such factors -/

variable [Scalar α]

/-- What is known of cardinalities is right. -/
def RightCards (card : Nat → Nat) (cards : Array Nat) : Prop :=
  ∀ v, cards.getD v 0 = 0 ∨ cards.getD v 0 = card v

/-- Loading succeeds, or a table is too large for the limit. -/
def Loads {β : Type} (limit : Nat) (right : β → Prop) : Except SolverFault β → Prop
  | .ok loaded => right loaded
  | .error fault => RefusedAt limit fault

theorem Loads.bind {β γ : Type} {limit : Nat} {right : β → Prop} {rightNext : γ → Prop}
    {loaded : Except SolverFault β} (hloaded : Loads limit right loaded)
    {next : β → Except SolverFault γ} (hnext : ∀ b, right b → Loads limit rightNext (next b)) :
    Loads limit rightNext (loaded >>= next) := by
  cases loaded with
  | ok b => exact hnext b hloaded
  | error fault => exact hloaded

namespace DenseTable

omit [Scalar α] in
theorem fill_inTable {size : Nat} {entries : List (Nat × α)}
    (hentries : ∀ entry ∈ entries, entry.1 < size) (values : Array α) :
    ∃ filled, fill size values entries = .ok filled := by
  induction entries generalizing values with
  | nil => exact ⟨values, rfl⟩
  | cons entry entries ih =>
      rw [List.forall_mem_cons] at hentries
      unfold fill
      rw [if_pos hentries.1]
      exact ih hentries.2 _

theorem ofFactor_loads {f : Factor Nat α} (hf : f.InTable) (limit number : Nat) (label : String) :
    Loads limit (fun _ => True) (ofFactor limit label number f) := by
  have hsize : Loads limit (fun size => size = f.cards.prod) (checkedSize f.cards limit) := by
    cases hsize : checkedSize f.cards limit with
    | ok size => exact checkedSize_ok hsize
    | error fault => exact checkedSize_error hsize
  apply hsize.bind
  rintro size rfl
  obtain ⟨filled, hfilled⟩ := fill_inTable hf (Array.replicate f.cards.prod 0)
  rw [hfilled]
  trivial

end DenseTable

namespace TableNetwork

variable {card : Nat → Nat}

theorem noteCard_right {cards : Array Nat} (hcards : RightCards card cards) (label : String)
    (v : Nat) : ∃ noted, noteCard label cards (v, card v) = .ok noted ∧ RightCards card noted := by
  have hknown : ¬ ((cards ++ Array.replicate (v + 1 - cards.size) 0).getD v 0 ≠ 0 ∧
      (cards ++ Array.replicate (v + 1 - cards.size) 0).getD v 0 ≠ card v) := by
    rw [getD_extended]
    rcases hcards v with hzero | hright
    · exact fun hboth => hboth.1 hzero
    · exact fun hboth => hboth.2 hright
  have hok : noteCard label cards (v, card v) = .ok _ := if_neg hknown
  refine ⟨_, hok, ?_⟩
  intro u
  rw [noteCard_ok hok]
  split
  next heq => exact Or.inr (heq ▸ rfl)
  next hne => exact hcards u

theorem noteCards_right {cards : Array Nat} (hcards : RightCards card cards) (label : String)
    (vars : List Nat) :
    ∃ noted, (vars.zip (vars.map card)).foldlM (noteCard label) cards = .ok noted ∧
      RightCards card noted := by
  induction vars generalizing cards with
  | nil => exact ⟨cards, rfl, hcards⟩
  | cons v vars ih =>
      obtain ⟨next, hnext, hright⟩ := noteCard_right hcards label v
      obtain ⟨noted, hnoted, hlast⟩ := ih hright
      exact ⟨noted, foldlM_cons_eq_ok_iff.mpr ⟨next, hnext, hnoted⟩, hlast⟩

theorem addFactor_loads {n : TableNetwork α} (hn : RightCards card n.cards) {f : Factor Nat α}
    (hcards : f.cards = f.vars.map card) (hf : f.InTable) (label : String) (number : Nat) :
    Loads n.limit (fun next => RightCards card next.cards ∧ next.limit = n.limit)
      (addFactor label n (f, number)) := by
  obtain ⟨noted, hnoted, hright⟩ := noteCards_right hn label f.vars
  unfold addFactor
  dsimp only
  rw [hcards, hnoted]
  exact (DenseTable.ofFactor_loads hf n.limit number label).bind (fun _ _ => ⟨hright, rfl⟩)

/-- Factors that agree on cardinalities and list states that exist can be loaded, unless a table is
beyond the limit. -/
theorem ofFactors_loads {factors : List (Factor Nat α)}
    (hcards : ∀ f ∈ factors, f.cards = f.vars.map card) (hfactors : ∀ f ∈ factors, f.InTable)
    (label : String) (limit : Nat) :
    Loads limit (fun _ => True) (ofFactors label limit factors) := by
  -- Along the run the limit stays the one of the network and the known cardinalities stay right.
  have hrun : ∀ (entries : List (Factor Nat α × Nat)) (n : TableNetwork α),
      (∀ entry ∈ entries, entry.1 ∈ factors) → RightCards card n.cards →
      Loads n.limit (fun _ => True) (entries.foldlM (addFactor label) n) := by
    intro entries
    induction entries with
    | nil => exact fun _ _ _ => trivial
    | cons entry entries ih =>
        intro n hentries hn
        rw [List.forall_mem_cons] at hentries
        rw [List.foldlM_cons]
        apply (addFactor_loads hn (hcards _ hentries.1) (hfactors _ hentries.1) label entry.2).bind
        rintro next ⟨hnext, hlimit⟩
        rw [← hlimit]
        exact ih next hentries.2 hnext
  apply hrun _ ⟨[], #[], limit⟩ (fun _ hentry => List.fst_mem_of_mem_zipIdx hentry)
  intro v
  simp

end TableNetwork

/-! ## Compiled graphs -/

namespace FactorGraph

namespace Lowering

variable {c : Lowering α} {phonyCount repetitions : Nat} {f : FactorGraph α}
  {owners : List ReplicaPart}

theorem Owns.inTable {ids : Numbering ν} {p : ReplicaPart} {t : Factor ν α}
    (howns : c.Owns ids phonyCount p t) : t.InTable := by
  cases howns with
  | certain => exact Factor.constantTrue_inTable _
  | drawn | latent => exact Factor.bernoulli_inTable _ _ _
  | derived | phony => exact Factor.clause_inTable _ _ _ _

theorem Compiled.inTable (hf : Compiled c phonyCount repetitions f owners)
    (hg : c.graph.Coherent) (hvalid : c.graph.validate = .ok ()) {t : Factor Nat α}
    (ht : t ∈ f.factors) : t.InTable := by
  rcases hf.mem_factors hg hvalid ht with ⟨dist, d, _, rfl⟩ | ⟨r, _, p, howns⟩
  · unfold parameterFactor
    split <;> exact Factor.categorical_inTable _ _
  · exact howns.inTable

/-- Nothing but a table beyond the limit prevents the factors from being loaded. -/
theorem Compiled.loads (hf : Compiled c phonyCount repetitions f owners)
    (hg : c.graph.Coherent) (hvalid : c.graph.validate = .ok ())
    (hdists : ∀ d ∈ c.graph.dists, d.supports.length = d.probabilities.length) (label : String)
    (options : SolverOptions α) :
    Loads options.maxTableEntries (fun _ => True)
      (ExactNetwork.ofFactors label options f.factors) := by
  have hcards : ∀ t ∈ f.factors, t.cards = t.vars.map c.cardOf :=
    fun t ht => hf.cards_eq hg hvalid hdists ht
  have hstates : ∀ t ∈ f.factors, t.InTable := fun t ht => hf.inTable hg hvalid ht
  exact (TableNetwork.ofFactors_loads hcards hstates label _).bind (fun _ _ => trivial)

end Lowering

end FactorGraph

end DerivationBelief

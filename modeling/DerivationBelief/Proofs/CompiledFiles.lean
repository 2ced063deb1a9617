import DerivationBelief.Proofs.ClauseWidths
import DerivationBelief.Proofs.CompiledLoading
import DerivationBelief.Proofs.DecimalText
import DerivationBelief.Proofs.FactorGraphText
import DerivationBelief.Proofs.FileTree
import DerivationBelief.Proofs.OneShotRuns
import Mathlib.Tactic

/-!
# Files of compiled graphs

The limit on clauses keeps the joint states of a factor within a machine word, so every number in the
file of a compiled graph fits the field it is read into.  If the weights read back, so does the whole
file, and then nothing but a table beyond the limit prevents it from being loaded.
-/

namespace DerivationBelief

variable {α ν : Type} [Scalar α]

/-! ## Entries and joint states -/

namespace Factor

theorem bernoulliEntries_length_le (state : Nat) (support : α) :
    (bernoulliEntries state support).length ≤ 2 := by
  unfold bernoulliEntries
  split <;> split <;> simp

theorem bernoulli_entries_le (var param : ν) (supports : List α) :
    (bernoulli var param supports).entries.length ≤ 2 * supports.length := by
  have hrun : ∀ entries : List (α × Nat),
      (entries.flatMap (fun entry => bernoulliEntries entry.2 entry.1)).length ≤
        2 * entries.length := by
    intro entries
    induction entries with
    | nil => simp
    | cons entry entries ih =>
        have hfirst := bernoulliEntries_length_le entry.2 entry.1
        rw [List.flatMap_cons, List.length_append, List.length_cons]
        omega
  simpa [bernoulli] using hrun supports.zipIdx

theorem clause_cards_prod (connective : Connective) (head : ν) (control : Option ν)
    (body : List ν) :
    (clause connective head control body : Factor ν α).cards.prod =
      2 ^ (clause connective head control body : Factor ν α).vars.length := by
  simp [clause, Nat.pow_succ, Nat.mul_comm]

/-- Half of the joint states of a clause have an entry. -/
theorem clause_entries_length (connective : Connective) (head : ν) (control : Option ν)
    (body : List ν) :
    2 * (clause connective head control body : Factor ν α).entries.length =
      (clause connective head control body : Factor ν α).cards.prod := by
  have hentries : ∀ state, (clauseEntries (α := α) control.isSome
      (connective.holds body.length state) state).length = 2 ^ control.toList.length := by
    intro state
    cases control <;> rfl
  rw [clause_cards_prod]
  simp only [clause, List.length_flatMap, hentries, List.map_const', List.sum_replicate,
    List.length_range, List.length_cons, List.length_append, smul_eq_mul]
  rw [Nat.pow_eq, Nat.mul_comm (2 ^ body.length), ← Nat.pow_add, ← Nat.pow_add_one']

end Factor

namespace FactorGraph

namespace Lowering

variable {c : Lowering α} {phonyCount repetitions : Nat} {f : FactorGraph α}
  {owners : List ReplicaPart}

/-- The supports of the distributions are counted by machine words. -/
def SupportsFit (g : CausalGraph α) : Prop :=
  ∀ d ∈ g.dists, 2 * d.supports.length < Text.word64

/-- The joint states of a factor, and so its entries, are counted by a machine word. -/
structure Counted (t : Factor ν α) : Prop where
  states_lt : t.cards.prod < Text.word64
  entries_le : t.entries.length ≤ t.cards.prod

omit [Scalar α] in
theorem categorical_counted (var : ν) {weights : List α} (hlt : weights.length < Text.word64) :
    Counted (Factor.categorical var weights) where
  states_lt := by simpa [Factor.categorical] using hlt
  entries_le := by simp [Factor.categorical]

theorem bernoulli_counted (var param : ν) {supports : List α}
    (hlt : 2 * supports.length < Text.word64) : Counted (Factor.bernoulli var param supports) where
  states_lt := by simpa [Factor.bernoulli] using hlt
  entries_le := by
    have hle := Factor.bernoulli_entries_le var param supports
    simpa [Factor.bernoulli] using hle

theorem clause_counted {limit : Nat} (hlimit : limit ≤ maxClauseLimit) {connective : Connective}
    {head : ν} {control : Option ν} {body : List ν}
    (hnarrow : Narrow limit (.clause connective head control body : Factor ν α)) :
    Counted (.clause connective head control body : Factor ν α) where
  states_lt := by
    rw [Factor.clause_cards_prod]
    have hwidth : (.clause connective head control body : Factor ν α).vars.length < 64 := by
      unfold Narrow at hnarrow
      unfold maxClauseLimit at hlimit
      omega
    exact Nat.pow_lt_pow_right (by decide) hwidth
  entries_le := by
    have hhalf := Factor.clause_entries_length (α := α) connective head control body
    omega

theorem Owns.counted {ids : Numbering ν} {p : ReplicaPart} {t : Factor ν α}
    (howns : c.Owns ids phonyCount p t) (hfit : SupportsFit c.graph)
    (hhigh : c.clauseLimit ≤ maxClauseLimit) (hnarrow : Narrow c.clauseLimit t) : Counted t := by
  cases howns with
  | certain => exact ⟨show 2 < Text.word64 by decide, by simp [Factor.constantTrue]⟩
  | drawn hsingleton hdraws =>
      apply bernoulli_counted
      split
      · exact hfit _ (List.mem_of_getElem? hdraws.present)
      · exact show 2 * 2 < Text.word64 by decide
  | latent hgate hdraws =>
      exact bernoulli_counted _ _ (hfit _ (List.mem_of_getElem? hdraws.present))
  | derived | phony => exact clause_counted hhigh hnarrow

theorem Compiled.counted (hf : Compiled c phonyCount repetitions f owners)
    (hg : c.graph.Coherent) (hvalid : c.graph.validate = .ok ())
    (hdists : ∀ d ∈ c.graph.dists, d.supports.length = d.probabilities.length)
    (hfit : SupportsFit c.graph) (hhigh : c.clauseLimit ≤ maxClauseLimit) {t : Factor Nat α}
    (ht : t ∈ f.factors) (hnarrow : Narrow c.clauseLimit t) : Counted t := by
  rcases hf.mem_factors hg hvalid ht with ⟨dist, d, hd, rfl⟩ | ⟨r, _, p, howns⟩
  · have hmem := List.mem_of_getElem? hd
    have hsupports := hfit d hmem
    unfold parameterFactor
    split
    · apply categorical_counted
      rw [← hdists d hmem]
      omega
    · exact categorical_counted _ (show 2 < Text.word64 by decide)
  · exact howns.counted hfit hhigh hnarrow

omit [Scalar α] in
theorem cardOf_lt (hfit : SupportsFit c.graph) (v : Nat) : c.cardOf v < Text.word64 := by
  unfold cardOf
  split
  · split
    · rename_i d hd
      have hsupports := hfit d (List.mem_of_getElem? hd)
      omega
    · decide
  · decide

theorem Compiled.factors_length (hf : Compiled c phonyCount repetitions f owners)
    (hg : c.graph.Coherent) (hvalid : c.graph.validate = .ok ()) :
    f.factors.length = f.layout.factorCount := by
  have hlength := (hf.heads_perm hg hvalid).length_eq
  rwa [List.length_map, List.length_map, List.length_range] at hlength

end Lowering

variable [Numeral α]

/-- The weights that a file lists read back to the values that were written. -/
def WeightsReadBack (f : FactorGraph α) : Prop :=
  ∀ t ∈ f.factors, ∀ entry ∈ t.entries,
    Numeral.read? (Numeral.text entry.2).toList = some entry.2

theorem Lowering.Compiled.writable {c : Lowering α} {phonyCount repetitions : Nat}
    {f : FactorGraph α} {owners : List ReplicaPart} [OneWordNumeral α]
    (hf : Compiled c phonyCount repetitions f owners) (hg : c.graph.Coherent)
    (hvalid : c.graph.validate = .ok ())
    (hdists : ∀ d ∈ c.graph.dists, d.supports.length = d.probabilities.length)
    (hfit : SupportsFit c.graph) (hhigh : c.clauseLimit ≤ maxClauseLimit)
    (hcount : f.layout.factorCount < Text.word64) (hweights : f.WeightsReadBack)
    {t : Factor Nat α} (ht : t ∈ f.factors) (hnarrow : Narrow c.clauseLimit t) : t.Writable := by
  have hcards := hf.cards_eq hg hvalid hdists ht
  have hcounted := hf.counted hg hvalid hdists hfit hhigh ht hnarrow
  constructor
  case vars_ne_nil =>
    rcases hf.mem_factors hg hvalid ht with ⟨dist, d, _, rfl⟩ | ⟨r, _, p, howns⟩
    · unfold parameterFactor
      split <;> simp [Factor.categorical]
    · cases howns <;> simp [Factor.constantTrue, Factor.bernoulli, Factor.clause]
  case cards_length =>
    rw [hcards, List.length_map]
  case count_lt =>
    unfold Narrow at hnarrow
    unfold maxClauseLimit at hhigh
    have hword : 64 < Text.word64 := by decide
    omega
  case vars_lt => exact fun v hv => (hf.var_lt hg hvalid ht hv).trans hcount
  case cards_lt =>
    intro card hcard
    rw [hcards] at hcard
    obtain ⟨v, _, rfl⟩ := List.mem_map.mp hcard
    exact cardOf_lt hfit v
  case entryCount_lt => exact hcounted.entries_le.trans_lt hcounted.states_lt
  case states_lt =>
    exact fun entry hentry => (hf.inTable hg hvalid ht entry hentry).trans hcounted.states_lt
  case weights_words => exact fun entry _ => OneWordNumeral.text_isWord entry.2
  case weights_read => exact hweights t ht

/-- Reading a factor graph undoes writing it: the text of a compiled graph is read as its factors in
order, and a file it was written to is loaded unless a table is beyond the limit.  All that is asked
of numbers is that the weights read back.  Variables, supports and joint states are counted by
machine words, as they are in memory. -/
theorem written_reads_back [OneWordNumeral α] {g : CausalGraph α} (hg : g.Constructed)
    (hvalid : g.validate = .ok ())
    (hdists : ∀ d ∈ g.dists, d.supports.length = d.probabilities.length) (repetitions : Nat)
    (bayesian : Bool) {limit : Nat} (hlow : 2 ≤ limit) (hhigh : limit ≤ maxClauseLimit) :
    ∃ f, compile g repetitions bayesian limit = .ok f ∧
      (f.layout.factorCount < Text.word64 → Lowering.SupportsFit g → f.WeightsReadBack →
        (∀ label, Factor.parseAll label f.text = .ok f.factors) ∧
        ∀ (tree written : FileTree) (path : String) (options : SolverOptions α),
          f.write tree path = .ok written →
          Loads options.maxTableEntries (fun _ => True)
            (ExactNetwork.load written path options)) := by
  obtain ⟨f, phonyCount, owners, hcompile, hf⟩ :=
    Lowering.compile_compiled (c := ⟨g, bayesian, limit⟩) hg.coherent hvalid hlow hhigh repetitions
  refine ⟨f, hcompile, ?_⟩
  intro hcount hfit hweights
  have hparse : ∀ label, Factor.parseAll label f.text = .ok f.factors := by
    intro label
    apply Factor.parseAll_of_writable
    · rwa [hf.factors_length hg.coherent hvalid]
    · intro t ht
      exact hf.writable hg.coherent hvalid hdists hfit hhigh hcount hweights ht
        (compile_narrow hcompile t ht)
  refine ⟨hparse, ?_⟩
  intro tree written path options hwrite
  have hcontent : ExactNetwork.contentOf written path = .ok f.text := by
    unfold write at hwrite
    split at hwrite
    · rename_i next hnext
      cases hwrite
      unfold ExactNetwork.contentOf
      rw [FileTree.read?_of_write? hnext]
    · cases hwrite
  have hload : ExactNetwork.load written path options =
      ExactNetwork.ofFactors path options f.factors := by
    simp only [ExactNetwork.load, hcontent, hparse path, bind, Except.bind]
  rw [hload]
  exact hf.loads hg.coherent hvalid hdists path options

/-! ## The file of a street -/

section Street

open OneShotLearner

instance : OneWordNumeral ℚ where
  text_isWord x := by
    change Text.IsWord (String.ofList (decimalChars x)).toList
    rw [String.toList_ofList]
    exact Decimal.positional_isWord _

/-- The file of a street is read as its factors, and can be written and loaded. -/
theorem wetStreet_written_reads_back :
    ∃ f, compile wetStreet 1 true 2 = .ok f ∧
      (∀ label, Factor.parseAll label f.text = .ok f.factors) ∧
      ∃ written, f.write .empty "street.fg" = .ok written ∧
        Loads 4194304 (fun _ => True)
          (ExactNetwork.load (α := ℚ) written "street.fg" .default) := by
  have hlengths : ∀ d ∈ wetStreet.dists, d.supports.length = d.probabilities.length :=
    fun d hd => (wetStreet_dists d hd).length_eq
  obtain ⟨f, hf, hread⟩ := written_reads_back wetStreet_constructed rfl hlengths 1 true
    (le_refl 2) (by decide : 2 ≤ maxClauseLimit)
  have hfits : Lowering.SupportsFit wetStreet := by
    unfold Lowering.SupportsFit
    decide
  have hsmall : ∀ f ∈ (compile wetStreet 1 true 2).toOption,
      f.layout.factorCount < Text.word64 ∧ ∀ t ∈ f.factors, ∀ entry ∈ t.entries,
        Numeral.read? (Numeral.text entry.2).toList = some entry.2 := by
    decide +kernel
  obtain ⟨hcount, hweights⟩ := hsmall f (by rw [hf]; rfl)
  obtain ⟨hparse, hload⟩ := hread hcount hfits hweights
  have hname : FileTree.PlainName "street.fg" := by
    constructor <;> decide +kernel
  obtain ⟨written, hplaced⟩ := hname.write?_empty f.text
  have hwritten : f.write .empty "street.fg" = .ok written := by
    unfold write
    rw [hplaced]
  exact ⟨f, hf, hparse, written, hwritten, hload _ _ _ _ hwritten⟩

end Street

end FactorGraph

end DerivationBelief

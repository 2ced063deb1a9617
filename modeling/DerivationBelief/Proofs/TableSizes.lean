import DerivationBelief.Proofs.NetworkWeights
import DerivationBelief.Proofs.TableValues
import Mathlib.Tactic

/-!
# Which tables are too large

How large a table becomes depends on the variables and the cardinalities of the tables that are
multiplied, and on none of their values.  So networks whose tables differ in their values only go
through the same sizes, and one of them finds a table beyond the limit when the other one does.
-/

namespace DerivationBelief

/-! ## Answers that go together -/

/-- Two answers fail with the same fault, or their values are related. -/
inductive Matching {ε α β : Type} (related : α → β → Prop) : Except ε α → Except ε β → Prop
  | ok {a : α} {b : β} (h : related a b) : Matching related (.ok a) (.ok b)
  | error (fault : ε) : Matching related (.error fault) (.error fault)

namespace Matching

variable {ε α β γ δ : Type} {related : α → β → Prop} {next : γ → δ → Prop} {x : Except ε α}
  {y : Except ε β}

theorem bind (h : Matching related x y) {f : α → Except ε γ} {g : β → Except ε δ}
    (hnext : ∀ a b, related a b → Matching next (f a) (g b)) :
    Matching next (x >>= f) (y >>= g) := by
  cases h with
  | ok hab => exact hnext _ _ hab
  | error fault => exact .error fault

theorem error_iff (h : Matching related x y) {fault : ε} :
    x = .error fault ↔ y = .error fault := by
  cases h with
  | ok hab => simp
  | error other => simp

theorem mapM {f : δ → Except ε α} {g : δ → Except ε β} {items : List δ}
    (h : ∀ item ∈ items, Matching related (f item) (g item)) :
    Matching (fun _ _ => True) (items.mapM f) (items.mapM g) := by
  induction items with
  | nil => exact .ok trivial
  | cons item items ih =>
      rw [List.forall_mem_cons] at h
      rw [List.mapM_cons, List.mapM_cons]
      apply h.1.bind
      intro a b _
      apply (ih h.2).bind
      intro as bs _
      exact .ok trivial

theorem foldlM {step : α → δ → Except ε α} {other : β → δ → Except ε β} {items : List δ}
    (hstep : ∀ item ∈ items, ∀ a b, related a b → Matching related (step a item) (other b item))
    {a : α} {b : β} (hab : related a b) :
    Matching related (items.foldlM step a) (items.foldlM other b) := by
  induction items generalizing a b with
  | nil => exact .ok hab
  | cons item items ih =>
      rw [List.forall_mem_cons] at hstep
      rw [List.foldlM_cons, List.foldlM_cons]
      apply (hstep.1 a b hab).bind
      intro c d hcd
      exact ih hstep.2 hcd

end Matching

namespace DenseTable

/-! ## Outlines -/

/-- The variables of a table with their cardinalities. -/
def outline (t : DenseTable ℚ) : List Nat × List Nat :=
  (t.vars, t.cards)

def outlines (tables : List (DenseTable ℚ)) : List (List Nat × List Nat) :=
  tables.map outline

/-- What is left of an outline when a variable goes. -/
def outlineWithout (o : List Nat × List Nat) (v : Nat) : List Nat × List Nat :=
  match Arrival.position? o.1 v with
  | none => o
  | some position => (o.1.eraseIdx position, o.2.eraseIdx position)

variable {tables others : List (DenseTable ℚ)}

theorem restrict_outline (t : DenseTable ℚ) (v state : Nat) :
    (t.restrict v state).outline = outlineWithout t.outline v := by
  unfold restrict outlineWithout outline
  dsimp only
  cases Arrival.position? t.vars v <;> rfl

theorem sumOut_outline (t : DenseTable ℚ) (v : Nat) :
    (t.sumOut v).outline = outlineWithout t.outline v := by
  have hslices : ∀ (slices : List Nat) (sum : DenseTable ℚ),
      (slices.foldl (fun sum state => sum.addValues (t.restrict v state)) sum).outline =
        sum.outline := by
    intro slices
    induction slices with
    | nil => exact fun _ => rfl
    | cons slice slices ih => exact fun sum => ih _
  cases hposition : Arrival.position? t.vars v with
  | none => simp [sumOut, outlineWithout, outline, hposition]
  | some position =>
      unfold sumOut
      rw [hposition]
      exact (hslices _ _).trans (restrict_outline t v 0)

theorem outlines_filter_mentions (tables : List (DenseTable ℚ)) (v : Nat) :
    outlines (tables.filter (fun t => t.mentions v)) =
      (outlines tables).filter (fun o => o.1.contains v) := by
  unfold outlines
  rw [List.filter_map]
  rfl

theorem outlines_filter_not_mentions (tables : List (DenseTable ℚ)) (v : Nat) :
    outlines (tables.filter (fun t => !t.mentions v)) =
      (outlines tables).filter (fun o => !o.1.contains v) := by
  unfold outlines
  rw [List.filter_map]
  rfl

theorem unionScope_congr (hsame : outlines tables = outlines others) :
    unionScope tables = unionScope others := by
  have hentries : ∀ ts : List (DenseTable ℚ),
      ts.flatMap (fun t => t.vars.zip t.cards) = (outlines ts).flatMap (fun o => o.1.zip o.2) := by
    intro ts
    rw [outlines, List.flatMap_map]
    rfl
  unfold unionScope
  rw [hentries, hentries, hsame]

theorem product_matching (hsame : outlines tables = outlines others) (limit : Nat) :
    Matching (fun joint other => joint.outline = other.outline) (product tables limit)
      (product others limit) := by
  unfold product
  dsimp only
  rw [unionScope_congr hsame]
  cases checkedSize ((unionScope others).map Prod.snd) limit with
  | error fault => exact .error fault
  | ok size => exact .ok rfl

end DenseTable

namespace TableNetwork

open DenseTable

/-- Tables that differ in their values only, in networks with the same limit. -/
structure Alike (n m : TableNetwork ℚ) : Prop where
  outlines_eq : outlines n.tables = outlines m.tables
  cards_eq : n.cards = m.cards
  limit_eq : n.limit = m.limit

variable {n m l : TableNetwork ℚ} {tables others : List (DenseTable ℚ)}

theorem Alike.refl (n : TableNetwork ℚ) : n.Alike n :=
  ⟨rfl, rfl, rfl⟩

theorem Alike.trans (h : n.Alike m) (hnext : m.Alike l) : n.Alike l :=
  ⟨h.outlines_eq.trans hnext.outlines_eq, h.cards_eq.trans hnext.cards_eq,
    h.limit_eq.trans hnext.limit_eq⟩

theorem Alike.states_eq (h : n.Alike m) : n.states = m.states := by
  unfold states
  rw [h.cards_eq]

theorem Alike.variables_eq (h : n.Alike m) : variablesOf n.factors = variablesOf m.factors := by
  have hvars : ∀ k : TableNetwork ℚ,
      k.factors.flatMap Factor.vars = (outlines k.tables).flatMap Prod.fst := by
    intro k
    rw [factors, outlines, List.flatMap_map, List.flatMap_map]
    rfl
  unfold variablesOf
  rw [hvars, hvars, h.outlines_eq]

theorem Alike.worlds_eq (h : n.Alike m) : n.worlds = m.worlds := by
  unfold worlds
  rw [h.states_eq, h.variables_eq]

/-! ## Elimination -/

theorem outlines_clamp (evidence : Evidence) (tables : List (DenseTable ℚ)) :
    outlines (tables.map (clamp evidence)) = (outlines tables).map (fun o =>
      (evidence.filter (fun entry => o.1.contains entry.1)).foldl
        (fun o entry => outlineWithout o entry.1) o) := by
  have hentries : ∀ (entries : Evidence) (t : DenseTable ℚ),
      (entries.foldl (fun table entry => table.restrict entry.1 entry.2) t).outline =
        entries.foldl (fun o entry => outlineWithout o entry.1) t.outline := by
    intro entries
    induction entries with
    | nil => exact fun _ => rfl
    | cons entry entries ih =>
        intro t
        rw [List.foldl_cons, ih, restrict_outline, List.foldl_cons]
  unfold outlines
  rw [List.map_map, List.map_map]
  apply List.map_congr_left
  intro t _
  exact hentries _ t

theorem Alike.scopeSize_congr (h : n.Alike m) (hsame : outlines tables = outlines others)
    (v : Nat) : n.scopeSize tables v = m.scopeSize others v := by
  have hscope : ∀ ts : List (DenseTable ℚ),
      (ts.filter (fun t => t.mentions v)).flatMap DenseTable.vars =
        ((outlines ts).filter (fun o => o.1.contains v)).flatMap Prod.fst := by
    intro ts
    rw [← outlines_filter_mentions, outlines, List.flatMap_map]
    rfl
  unfold scopeSize
  rw [hscope, hscope, hsame, h.cards_eq]

theorem Alike.cheapest_congr (h : n.Alike m) (hsame : outlines tables = outlines others)
    (pending : List Nat) : n.cheapest tables pending = m.cheapest others pending := by
  induction pending with
  | nil => rfl
  | cons v pending ih =>
      unfold cheapest
      rw [h.scopeSize_congr hsame, ih]

theorem Alike.eliminateVar_matching (h : n.Alike m) (hsame : outlines tables = outlines others)
    (v : Nat) :
    Matching (fun left other => outlines left = outlines other) (n.eliminateVar tables v)
      (m.eliminateVar others v) := by
  have htouching : outlines (tables.filter (fun t => t.mentions v)) =
      outlines (others.filter (fun t => t.mentions v)) := by
    rw [outlines_filter_mentions, outlines_filter_mentions, hsame]
  have hrest : outlines (tables.filter (fun t => !t.mentions v)) =
      outlines (others.filter (fun t => !t.mentions v)) := by
    rw [outlines_filter_not_mentions, outlines_filter_not_mentions, hsame]
  unfold eliminateVar
  rw [← h.limit_eq]
  apply (product_matching htouching n.limit).bind
  intro joint other hjoint
  have hsum : (joint.sumOut v).outline = (other.sumOut v).outline := by
    rw [sumOut_outline, sumOut_outline, hjoint]
  apply Matching.ok
  unfold outlines at hrest ⊢
  rw [List.map_append, List.map_append, hrest, List.map_singleton, List.map_singleton, hsum]

theorem Alike.eliminateAll_matching (h : n.Alike m) (fuel : Nat) (pending : List Nat)
    (hsame : outlines tables = outlines others) :
    Matching (fun left other => outlines left = outlines other)
      (n.eliminateAll fuel pending tables) (m.eliminateAll fuel pending others) := by
  induction fuel generalizing pending tables others with
  | zero => exact .ok hsame
  | succ fuel ih =>
      unfold eliminateAll
      rw [h.cheapest_congr hsame]
      cases m.cheapest others pending with
      | none => exact .ok hsame
      | some choice =>
          apply (h.eliminateVar_matching hsame choice.1).bind
          intro left other hleft
          exact ih _ hleft

theorem Alike.eliminate_matching (h : n.Alike m) (evidence : Evidence) (keep : Option Nat) :
    Matching (fun left other => outlines left = outlines other) (n.eliminate evidence keep)
      (m.eliminate evidence keep) := by
  have hclamped : outlines (n.tables.map (clamp evidence)) =
      outlines (m.tables.map (clamp evidence)) := by
    rw [outlines_clamp, outlines_clamp, h.outlines_eq]
  have hvars : ∀ tables : List (DenseTable ℚ),
      tables.flatMap DenseTable.vars = (outlines tables).flatMap Prod.fst := by
    intro tables
    rw [outlines, List.flatMap_map]
    rfl
  unfold eliminate
  dsimp only
  rw [hvars, hvars, hclamped]
  exact h.eliminateAll_matching _ _ hclamped

/-! ## Faults -/

theorem Alike.lastTable_matching (h : n.Alike m) (evidence : Evidence) (v : Nat) :
    Matching (fun joint other => joint.outline = other.outline) (n.lastTable evidence v)
      (m.lastTable evidence v) := by
  unfold lastTable
  rw [← h.limit_eq]
  apply (h.eliminate_matching evidence _).bind
  intro left other hleft
  exact product_matching hleft n.limit

/-- An answer that no table has been too large for. -/
def Settled {α : Type} : Except SolverFault α → Prop
  | .ok _ => True
  | .error fault => fault = .inconsistentEvidence

theorem ifPositive_settled {α : Type} (total : ℚ) (answer : α) :
    Settled (ifPositive total answer) := by
  unfold ifPositive
  split
  · trivial
  · rfl

theorem readBelief_settled (count : Nat) (evidence : Evidence) (v : Nat) (joint : DenseTable ℚ) :
    Settled (readBelief count evidence v joint) := by
  unfold readBelief
  cases Arrival.get? evidence v with
  | some state => exact ifPositive_settled _ _
  | none => exact ifPositive_settled _ _

theorem Regular.belief_settled_iff (hn : n.Regular) {evidence : Evidence}
    (hevidence : evidence.Below n.states) {v : Nat} (hv : v ∈ variablesOf n.factors)
    (hsettled : Settled (n.belief evidence v)) :
    (∃ belief, n.belief evidence v = .ok belief ∧ 0 < n.likelihood evidence) ∨
      n.belief evidence v = .error .inconsistentEvidence ∧ ¬ 0 < n.likelihood evidence := by
  have hexact := hn.belief_exact_shares hevidence hv
  unfold ExactBelief at hexact
  cases hbelief : n.belief evidence v with
  | ok belief =>
      rw [hbelief] at hexact
      exact Or.inl ⟨belief, rfl, hexact.1⟩
  | error fault =>
      rw [hbelief] at hsettled hexact
      cases hsettled
      exact Or.inr ⟨rfl, not_lt.mpr hexact⟩

/-- Networks with tables of the same sizes fail to answer with the same fault when they explain the
same evidence. -/
theorem Alike.belief_matching (h : n.Alike m) (hn : n.Regular) (hm : m.Regular)
    {evidence : Evidence} (hevidence : evidence.Below n.states) {v : Nat}
    (hv : v ∈ variablesOf n.factors)
    (hexplained : 0 < n.likelihood evidence ↔ 0 < m.likelihood evidence) :
    Matching (fun _ _ => True) (n.belief evidence v) (m.belief evidence v) := by
  have hbelow : evidence.Below m.states := h.states_eq ▸ hevidence
  have hmem : v ∈ variablesOf m.factors := h.variables_eq ▸ hv
  have hbelief := n.belief_eq_bind evidence v
  have hother := m.belief_eq_bind evidence v
  rw [hn.holds.cardOf n.states_pos hv] at hbelief
  rw [hm.holds.cardOf m.states_pos hmem] at hother
  -- The last tables fail together.  When neither does, the weight of the evidence decides, and it is
  -- positive in both networks or in none.
  have hlast := h.lastTable_matching evidence v
  cases hfirst : n.lastTable evidence v with
  | error fault =>
      have hsecond := hlast.error_iff.mp hfirst
      rw [hbelief, hother, hfirst, hsecond]
      exact .error fault
  | ok joint =>
      cases hsecond : m.lastTable evidence v with
      | error fault =>
          cases (hlast.error_iff.mpr hsecond).symm.trans hfirst
      | ok last =>
          have hsettled : Settled (n.belief evidence v) := by
            rw [hbelief, hfirst]
            exact readBelief_settled _ _ _ joint
          have hsettledOther : Settled (m.belief evidence v) := by
            rw [hother, hsecond]
            exact readBelief_settled _ _ _ last
          rcases hn.belief_settled_iff hevidence hv hsettled with ⟨b, hb, hpos⟩ | ⟨hb, hnot⟩
          · rcases hm.belief_settled_iff hbelow hmem hsettledOther with ⟨c, hc, _⟩ | ⟨_, hnot⟩
            · rw [hb, hc]
              exact .ok trivial
            · exact absurd (hexplained.mp hpos) hnot
          · rcases hm.belief_settled_iff hbelow hmem hsettledOther with ⟨c, _, hpos⟩ | ⟨hc, _⟩
            · exact absurd (hexplained.mpr hpos) hnot
            · rw [hb, hc]
              exact .error _

end TableNetwork

end DerivationBelief

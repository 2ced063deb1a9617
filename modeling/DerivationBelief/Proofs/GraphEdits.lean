import DerivationBelief.Outcome
import DerivationBelief.PriorTable
import DerivationBelief.Proofs.CompilationMeaning
import DerivationBelief.Proofs.TemplateShape
import Mathlib.Tactic

/-!
# Editing a graph

A graph that has been built may be edited one operation after another, and an operation that is
refused leaves the graph as it was.  Editing only adds nodes behind the old ones, so nodes keep
their numbers, and it never makes the graph refer to a node or a distribution that it does not have.

An edited graph need not validate: a new node has no role, and a derivation may be given to a node
that has one.  It still compiles, since lowering looks up only what the graph refers to.
-/

namespace DerivationBelief

inductive GraphEdit (α : Type) where
  | addNode (node : String)
  | setSum (head : Nat) (body : List Nat)
  | setProd (head : Nat) (body : List Nat)
  | setPrior (node : String) (d : Distribution α)
  | tie (node dist : Nat)
  | applyPriors (table : PriorTable α)
  | forgetPriors
  | reweigh (dist : Nat) (weights : List α)

namespace CausalGraph

variable {α : Type}

/-! ## Edits -/

section Edits

variable [Scalar α]

/-- Give a distribution new weights.  A number without a distribution changes nothing. -/
def reweighDist (g : CausalGraph α) (dist : Nat) (weights : List α) :
    Except (DistributionFault α) (CausalGraph α) :=
  match g.dists[dist]? with
  | none => .ok g
  | some d => do
      return g.setDist dist (← d.reweigh weights)

/-- What an edit makes of a graph. -/
def revise (g : CausalGraph α) : GraphEdit α → Except (Fault α) (CausalGraph α)
  | .addNode node => .ok (g.addNode node).1
  | .setSum head body => (g.setSum head body).mapError .graph
  | .setProd head body => (g.setProd head body).mapError .graph
  | .setPrior node d => .ok (g.setPrior node d).1
  | .tie node dist => (g.tie node dist).mapError .graph
  | .applyPriors table => .ok (g.applyPriors table)
  | .forgetPriors => .ok g.forgetPriors
  | .reweigh dist weights => (g.reweighDist dist weights).mapError .distribution

/-- Editing happens in place: what has been changed before an edit is refused stays changed. -/
abbrev Editing (α : Type) := ExceptT (Fault α) (StateM (CausalGraph α))

def Editing.check {α β : Type} (answer : Except (Fault α) β) : Editing α β :=
  ExceptT.mk (pure answer)

/-- How an edit proceeds on the graph it finds. -/
def perform : GraphEdit α → Editing α Unit
  | .addNode node => modify (fun g => (g.addNode node).1)
  | .setSum head body => do
      let g ← get
      let checked ← Editing.check ((g.checkBody head body).mapError .graph)
      set { g with sums := Arrival.put g.sums head checked }
  | .setProd head body => do
      let g ← get
      let checked ← Editing.check ((g.checkBody head body).mapError .graph)
      set { g with prods := Arrival.put g.prods head checked }
  | .setPrior node d => modify (fun g => (g.setPrior node d).1)
  | .tie node dist => do
      let g ← get
      if g.nodeCount ≤ node then throw (.graph (.nodeOutOfRange node g.nodeCount))
      else if g.distCount ≤ dist then throw (.graph (.distOutOfRange dist g.distCount))
      else set { g with stochastic := Arrival.put g.stochastic node dist }
  | .applyPriors table => modify (fun g => g.applyPriors table)
  | .forgetPriors => do
      modify (fun g => { g with stochastic := [] })
      modify (fun g => { g with dists := [] })
  | .reweigh dist weights => do
      let g ← get
      match g.dists[dist]? with
      | none => pure ()
      | some d =>
          let reweighed ← Editing.check ((d.reweigh weights).mapError .distribution)
          set (g.setDist dist reweighed)

def edit (g : CausalGraph α) (change : GraphEdit α) : Outcome (Fault α) Unit (CausalGraph α) :=
  (perform change).run g

/-- What is set only after a check is not touched when the check fails. -/
theorem Editing.run_check {α β : Type} (answer : Except (Fault α) β) (next : β → CausalGraph α)
    (g : CausalGraph α) :
    (check answer >>= fun checked => set (next checked)).run g =
      match answer with
      | .ok checked => (.ok (), next checked)
      | .error fault => (.error fault, g) := by
  cases answer <;> rfl

/-- An edit comes to its operation, or it is refused before anything has been changed. -/
theorem edit_eq (g : CausalGraph α) (change : GraphEdit α) :
    g.edit change =
      match g.revise change with
      | .ok next => (.ok (), next)
      | .error fault => (.error fault, g) := by
  cases change with
  | addNode node => rfl
  | setSum head body =>
      refine (Editing.run_check ((g.checkBody head body).mapError .graph)
        (fun checked => { g with sums := Arrival.put g.sums head checked }) g).trans ?_
      unfold revise setSum
      dsimp only
      cases g.checkBody head body <;> rfl
  | setProd head body =>
      refine (Editing.run_check ((g.checkBody head body).mapError .graph)
        (fun checked => { g with prods := Arrival.put g.prods head checked }) g).trans ?_
      unfold revise setProd
      dsimp only
      cases g.checkBody head body <;> rfl
  | setPrior node d => rfl
  | tie node dist =>
      have hperform : g.edit (.tie node dist) =
          (if g.nodeCount ≤ node then
              (throw (.graph (.nodeOutOfRange node g.nodeCount)) : Editing α Unit)
            else if g.distCount ≤ dist then throw (.graph (.distOutOfRange dist g.distCount))
            else set { g with stochastic := Arrival.put g.stochastic node dist }).run g := rfl
      rw [hperform]
      unfold revise tie
      dsimp only
      split_ifs <;> rfl
  | applyPriors table => rfl
  | forgetPriors => rfl
  | reweigh dist weights =>
      have hperform : g.edit (.reweigh dist weights) =
          (match g.dists[dist]? with
            | none => (pure () : Editing α Unit)
            | some d => Editing.check ((d.reweigh weights).mapError .distribution) >>=
                fun reweighed => set (g.setDist dist reweighed)).run g := rfl
      rw [hperform]
      unfold revise reweighDist
      dsimp only
      cases g.dists[dist]? with
      | none => rfl
      | some d =>
          refine (Editing.run_check ((d.reweigh weights).mapError .distribution)
            (g.setDist dist) g).trans ?_
          dsimp only
          cases d.reweigh weights <;> rfl

def edited (g : CausalGraph α) (changes : List (GraphEdit α)) : CausalGraph α :=
  changes.foldl (fun g change => (g.edit change).2) g

theorem edited_append (g : CausalGraph α) (first more : List (GraphEdit α)) :
    g.edited (first ++ more) = (g.edited first).edited more :=
  List.foldl_append

theorem edit_refused {g : CausalGraph α} {change : GraphEdit α} {fault : Fault α}
    (hfault : (g.edit change).1 = .error fault) : (g.edit change).2 = g := by
  rw [edit_eq] at hfault ⊢
  cases hrevise : g.revise change with
  | ok next =>
      rw [hrevise] at hfault
      cases hfault
  | error _ => rfl

end Edits

/-! ## What an edit keeps -/

theorem mapError_eq_ok {ε ε' β : Type} {answer : Except ε β} {wrap : ε → ε'} {b : β}
    (hb : answer.mapError wrap = .ok b) : answer = .ok b := by
  cases answer with
  | ok c =>
      cases hb
      rfl
  | error _ => cases hb

theorem nodes_prefix_addNode (g : CausalGraph α) (node : String) :
    g.nodes <+: (g.addNode node).1.nodes := by
  unfold addNode Arrival.insert
  dsimp only
  split
  · exact List.prefix_rfl
  · exact List.prefix_append _ _

theorem nodes_setPrior (g : CausalGraph α) (node : String) (d : Distribution α) :
    (g.setPrior node d).1.nodes = g.nodes := by
  unfold setPrior
  split <;> rfl

theorem nodes_tie {g next : CausalGraph α} {node dist : Nat} (hnext : g.tie node dist = .ok next) :
    next.nodes = g.nodes := by
  unfold tie at hnext
  split_ifs at hnext
  cases hnext
  rfl

theorem Applying.nodes_assign (s : Applying α) (dists : List (Distribution α))
    (entry : String × Nat) : (s.assign dists entry).graph.nodes = s.graph.nodes := by
  unfold Applying.assign
  split
  · rfl
  · split <;> rfl

theorem nodes_applyPriors (g : CausalGraph α) (table : PriorTable α) :
    (g.applyPriors table).nodes = g.nodes := by
  have hkeeps : ∀ (assignments : List (String × Nat)) (s : Applying α),
      (assignments.foldl (Applying.assign table.dists) s).graph.nodes = s.graph.nodes := by
    intro assignments
    induction assignments with
    | nil => exact fun _ => rfl
    | cons entry assignments ih =>
        exact fun s => (ih _).trans (s.nodes_assign table.dists entry)
  exact hkeeps table.assignments ⟨g, []⟩

section Edits

variable [Scalar α]

/-- Reweighing is a change of a distribution in its place, or none at all. -/
theorem reweighDist_ok {g next : CausalGraph α} {dist : Nat} {weights : List α}
    (hnext : g.reweighDist dist weights = .ok next) : next = g ∨ ∃ d, next = g.setDist dist d := by
  unfold reweighDist at hnext
  cases hdist : g.dists[dist]? with
  | none =>
      rw [hdist] at hnext
      cases hnext
      exact Or.inl rfl
  | some d =>
      rw [hdist] at hnext
      obtain ⟨reweighed, _, hset⟩ := bind_eq_ok_iff.mp hnext
      cases hset
      exact Or.inr ⟨reweighed, rfl⟩

/-- An edit that is made is one of the operations, and it adds nodes only behind the old ones. -/
theorem revise_ok {g next : CausalGraph α} {change : GraphEdit α} (hg : g.Constructed)
    (hnext : g.revise change = .ok next) : next.Constructed ∧ g.nodes <+: next.nodes := by
  cases change with
  | addNode node =>
      cases hnext
      exact ⟨hg.addNode node, g.nodes_prefix_addNode node⟩
  | setSum head body =>
      have hset := mapError_eq_ok hnext
      refine ⟨hg.setSum hset, ?_⟩
      obtain ⟨checked, _, hput⟩ := bind_eq_ok_iff.mp hset
      cases hput
      exact List.prefix_rfl
  | setProd head body =>
      have hset := mapError_eq_ok hnext
      refine ⟨hg.setProd hset, ?_⟩
      obtain ⟨checked, _, hput⟩ := bind_eq_ok_iff.mp hset
      cases hput
      exact List.prefix_rfl
  | setPrior node d =>
      cases hnext
      refine ⟨hg.setPrior node d, ?_⟩
      rw [nodes_setPrior]
  | tie node dist =>
      have htie := mapError_eq_ok hnext
      refine ⟨hg.tie htie, ?_⟩
      rw [nodes_tie htie]
  | applyPriors table =>
      cases hnext
      refine ⟨hg.applyPriors table, ?_⟩
      rw [nodes_applyPriors]
  | forgetPriors =>
      cases hnext
      exact ⟨hg.forgetPriors, List.prefix_rfl⟩
  | reweigh dist weights =>
      rcases reweighDist_ok (mapError_eq_ok hnext) with rfl | ⟨d, rfl⟩
      · exact ⟨hg, List.prefix_rfl⟩
      · exact ⟨hg.setDist dist d, List.prefix_rfl⟩

theorem Constructed.edit {g : CausalGraph α} (hg : g.Constructed) (change : GraphEdit α) :
    (g.edit change).2.Constructed ∧ g.nodes <+: (g.edit change).2.nodes := by
  rw [edit_eq]
  cases hrevise : g.revise change with
  | ok next => exact revise_ok hg hrevise
  | error _ => exact ⟨hg, List.prefix_rfl⟩

theorem Constructed.edited {g : CausalGraph α} (hg : g.Constructed)
    (changes : List (GraphEdit α)) :
    (g.edited changes).Constructed ∧ g.nodes <+: (g.edited changes).nodes := by
  induction changes generalizing g with
  | nil => exact ⟨hg, List.prefix_rfl⟩
  | cons change changes ih =>
      obtain ⟨hnext, hfirst⟩ := hg.edit change
      obtain ⟨hlast, hrest⟩ := ih hnext
      exact ⟨hlast, hfirst.trans hrest⟩

end Edits

end CausalGraph

/-! ## Compiling an edited graph -/

namespace FactorGraph

namespace Lowering

variable {α : Type} [Scalar α] {c : Lowering α}

omit [Scalar α] in
/-- Whatever its role, a node that draws from a distribution draws from one that the graph has. -/
theorem exists_controlOf (hg : c.graph.Coherent) (n : Nat) :
    ∃ control, c.controlOf n = .ok control := by
  by_cases hlatent : n ∈ c.latents
  · obtain ⟨hn, _, hsingleton⟩ := mem_latents_iff.mp hlatent
    exact ⟨_, controlOf_eq hg hn hsingleton⟩
  · refine ⟨none, ?_⟩
    unfold controlOf
    rw [Arrival.position?_eq_none_iff.mpr hlatent]

theorem exists_emitClauses (hg : c.graph.Coherent) (connective : Connective)
    (derivations : List (Nat × List Nat)) (e : Emitted α) :
    ∃ last, derivations.foldlM (c.emitClause connective) e = .ok last := by
  induction derivations generalizing e with
  | nil => exact ⟨e, rfl⟩
  | cons d derivations ih =>
      obtain ⟨control, hcontrol⟩ := exists_controlOf hg d.1
      have hnext : ∃ next, c.emitClause connective e d = .ok next := by
        unfold emitClause
        rw [hcontrol]
        exact ⟨_, rfl⟩
      obtain ⟨next, hnext⟩ := hnext
      obtain ⟨last, hlast⟩ := ih next
      exact ⟨last, foldlM_cons_eq_ok_iff.mpr ⟨next, hnext, hlast⟩⟩

theorem exists_template (hg : c.graph.Coherent) : ∃ e, c.template = .ok e := by
  obtain ⟨latents, hlatents, _⟩ := latentFactors_owned hg
  obtain ⟨sums, hsums⟩ := exists_emitClauses hg .any c.graph.sums ⟨latents, c.phonyBase⟩
  obtain ⟨clauses, hclauses⟩ := exists_emitClauses hg .all c.graph.prods sums
  obtain ⟨singletons, hsingletons, _⟩ :=
    mapM_ok (fun _ hn => singletonFactor_owned (c := c) hg hn 0)
  exact ⟨_, bind_eq_ok_iff.mpr ⟨latents, hlatents, bind_eq_ok_iff.mpr ⟨sums, hsums,
    bind_eq_ok_iff.mpr ⟨clauses, hclauses, bind_eq_ok_iff.mpr ⟨singletons, hsingletons, rfl⟩⟩⟩⟩⟩

end Lowering

/-- A coherent graph compiles, validated or not, unless the clause limit is out of range. -/
theorem exists_compile {α : Type} [Scalar α] {g : CausalGraph α} (hg : g.Coherent)
    (repetitions : Nat) (bayesian : Bool) {clauseLimit : Nat} (hlow : 2 ≤ clauseLimit)
    (hhigh : clauseLimit ≤ maxClauseLimit) :
    ∃ f, compile g repetitions bayesian clauseLimit = .ok f := by
  obtain ⟨e, he⟩ := Lowering.exists_template (c := ⟨g, bayesian, clauseLimit⟩) hg
  unfold compile
  rw [if_neg (by omega)]
  exact ⟨_, bind_eq_ok_iff.mpr ⟨e, he, rfl⟩⟩

theorem compile_outside_limit {α : Type} [Scalar α] (g : CausalGraph α) (repetitions : Nat)
    (bayesian : Bool) {clauseLimit : Nat}
    (houtside : clauseLimit < 2 ∨ maxClauseLimit < clauseLimit) :
    compile g repetitions bayesian clauseLimit = .error (.clauseLimit clauseLimit) := by
  unfold compile
  rw [if_pos houtside]

end FactorGraph

namespace CausalGraph

open FactorGraph (compile maxClauseLimit exists_compile compile_outside_limit plainStreet evenOdds)

/-- However a built graph is edited, its nodes keep their numbers, all references are to what it
has, a refused edit changes nothing, and it compiles exactly when the clause limit is in range. -/
theorem edited_never_dangles {α : Type} [Scalar α] {name : String} {nodes singletons : List String}
    {sums prods : List Derivation} {g : CausalGraph α}
    (hbuilt : CausalGraph.build name nodes singletons sums prods = .ok g ∨
      ∃ table, CausalGraph.buildWithPriors name nodes singletons sums prods table = .ok g)
    (changes : List (GraphEdit α)) :
    (∀ (more : List (GraphEdit α)), ∀ id < (g.edited changes).nodeCount,
      (g.edited (changes ++ more)).nodes[id]? = (g.edited changes).nodes[id]?) ∧
    (g.edited changes).Coherent ∧
    (∀ change fault, ((g.edited changes).edit change).1 = .error fault →
      ((g.edited changes).edit change).2 = g.edited changes) ∧
    ∀ repetitions bayesian clauseLimit,
      (2 ≤ clauseLimit ∧ clauseLimit ≤ maxClauseLimit →
        ∃ f, compile (g.edited changes) repetitions bayesian clauseLimit = .ok f) ∧
      (clauseLimit < 2 ∨ maxClauseLimit < clauseLimit →
        compile (g.edited changes) repetitions bayesian clauseLimit =
          .error (.clauseLimit clauseLimit)) := by
  have hconstructed : g.Constructed := by
    rcases hbuilt with hbuild | ⟨table, hbuild⟩
    · exact .build hbuild
    · obtain ⟨bare, hbare, happly⟩ := bind_eq_ok_iff.mp hbuild
      cases happly
      exact (Constructed.build hbare).applyPriors table
  have hedited := (hconstructed.edited changes).1
  refine ⟨?_, hedited.coherent, fun _ _ hfault => edit_refused hfault, ?_⟩
  · intro more id hid
    rw [edited_append]
    obtain ⟨added, hadded⟩ := (hedited.edited more).2
    rw [← hadded, List.getElem?_append_left hid]
  · intro repetitions bayesian clauseLimit
    exact ⟨fun hlimit => exists_compile hedited.coherent repetitions bayesian hlimit.1
      hlimit.2, compile_outside_limit _ repetitions bayesian⟩

/-- A body that refers to a missing node is refused, and the new node has no role. -/
theorem editedStreet_never_dangles :
    let changes : List (GraphEdit ℚ) :=
      [.setSum 1 [7], .setPrior "rain" evenOdds, .tie 1 0, .addNode "ice"]
    (plainStreet.edited changes).nodes = ["rain", "wet", "ice"] ∧
      (plainStreet.edited changes).stochastic = [(0, 0), (1, 0)] ∧
      (plainStreet.edited changes).validate = .error (.redundantNode "ice") ∧
      (plainStreet.edited changes).Coherent ∧
      ∃ f, compile (plainStreet.edited changes) 1 true 2 = .ok f := by
  intro changes
  have hbuild : CausalGraph.build "street" ["rain", "wet"] ["rain"] [("wet", ["rain"])] [] =
      .ok plainStreet := rfl
  obtain ⟨_, hcoherent, _, hcompile⟩ := edited_never_dangles (.inl hbuild) changes
  exact ⟨rfl, rfl, rfl, hcoherent, (hcompile 1 true 2).1 (by decide)⟩

end CausalGraph

end DerivationBelief

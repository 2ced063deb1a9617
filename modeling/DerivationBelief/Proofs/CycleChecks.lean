import DerivationBelief.Proofs.DerivationOrder
import DerivationBelief.Proofs.StableOrder
import Mathlib.Data.List.Sort
import Mathlib.Tactic

/-!
# Two checks for cycles

A derivation has no cycle exactly when its nodes have a topological order, and exactly when there is
no component of two or more nodes.  The components come from a search that numbers the nodes, the
order from one that keeps a stack.  What joins the two is that no node is in its own body, so every
cycle links two nodes.
-/

namespace DerivationBelief

open Relation

namespace CausalGraph

variable {α : Type} {g : CausalGraph α}

/-- The two nodes are the same or lie on a common cycle. -/
def Linked (g : CausalGraph α) (v w : Nat) : Prop :=
  ReflTransGen g.Leads v w ∧ ReflTransGen g.Leads w v

theorem Linked.symm {v w : Nat} (hlinked : g.Linked v w) : g.Linked w v :=
  ⟨hlinked.2, hlinked.1⟩

theorem Linked.trans {u v w : Nat} (hfirst : g.Linked u v) (hsecond : g.Linked v w) :
    g.Linked u w :=
  ⟨hfirst.1.trans hsecond.1, hsecond.2.trans hfirst.2⟩

theorem isComponent_heads_iff {nodes : List Nat} :
    IsComponent g.heads nodes ↔ ∃ v, ∀ w, w ∈ nodes ↔ g.Linked v w := by
  unfold IsComponent Linked
  simp only [leadsTo_heads_iff]

/-- Two or more nodes that lead to each other, with all others that do, in increasing order. -/
structure StrongComponent (g : CausalGraph α) (nodes : List Nat) : Prop where
  increasing : nodes.Pairwise (· < ·)
  two_le : 2 ≤ nodes.length
  linked : ∃ v < g.nodeCount, ∀ w, w ∈ nodes ↔ g.Linked v w

/-! ## The components that are found -/

theorem pairwise_sortBy_le (nodes : List Nat) :
    (sortBy (fun a b => decide (a ≤ b)) nodes).Pairwise (· ≤ ·) := by
  have hsorted : (sortBy (fun a b => decide (a ≤ b)) nodes).Pairwise
      (fun a b => decide (a ≤ b) = true) := by
    apply pairwise_sortBy
    · intro a b
      simpa only [decide_eq_true_iff] using le_total a b
    · intro a b c hab hbc
      rw [decide_eq_true_iff] at hab hbc ⊢
      exact hab.trans hbc
  exact hsorted.imp of_decide_eq_true

theorem Coherent.components_perm (hg : g.Coherent) :
    (ComponentSearch.run g.heads g.nodeCount).components.flatten.Perm (List.range g.nodeCount) :=
  (ComponentSearch.run_components hg.heads_lt).1

theorem Coherent.components_nodup (hg : g.Coherent) :
    (ComponentSearch.run g.heads g.nodeCount).components.flatten.Nodup :=
  hg.components_perm.nodup_iff.mpr List.nodup_range

theorem Coherent.strongComponent_of_mem (hg : g.Coherent) {nodes : List Nat}
    (hnodes : nodes ∈ (ComponentSearch.run g.heads g.nodeCount).components)
    (hlength : 1 < nodes.length) :
    g.StrongComponent (sortBy (fun a b => decide (a ≤ b)) nodes) := by
  have hperm := sortBy_perm (fun a b => decide (a ≤ b)) nodes
  have hnodup : nodes.Nodup := (List.nodup_flatten.mp hg.components_nodup).1 nodes hnodes
  obtain ⟨v, hv⟩ := isComponent_heads_iff.mp
    ((ComponentSearch.run_components hg.heads_lt).2 nodes hnodes)
  have hmem : v ∈ nodes := (hv v).mpr ⟨ReflTransGen.refl, ReflTransGen.refl⟩
  refine ⟨?_, ?_, v, ?_, fun w => hperm.mem_iff.trans (hv w)⟩
  · have hne := hperm.nodup_iff.mpr hnodup
    exact (pairwise_sortBy_le nodes).imp₂ (fun _ _ hle hne => lt_of_le_of_ne hle hne) hne
  · rw [hperm.length_eq]
    exact hlength
  · exact List.mem_range.mp
      (hg.components_perm.mem_iff.mp (List.mem_flatten.mpr ⟨nodes, hnodes, hmem⟩))

/-- Exactly the strong components of two or more nodes are reported. -/
theorem Coherent.mem_findCycles (hg : g.Coherent) {nodes : List Nat} :
    nodes ∈ g.findCycles ↔ g.StrongComponent nodes := by
  unfold findCycles
  simp only [List.mem_map, List.mem_filter, decide_eq_true_iff]
  constructor
  · rintro ⟨found, ⟨hfound, hlength⟩, rfl⟩
    exact hg.strongComponent_of_mem hfound hlength
  · rintro ⟨hincreasing, hlength, v, hlt, hlinked⟩
    obtain ⟨found, hfound, hv⟩ := List.mem_flatten.mp
      (hg.components_perm.mem_iff.mpr (List.mem_range.mpr hlt))
    obtain ⟨root, hroot⟩ := isComponent_heads_iff.mp
      ((ComponentSearch.run_components hg.heads_lt).2 found hfound)
    have hmem : ∀ w, w ∈ found ↔ w ∈ nodes := by
      intro w
      have hown := (hroot v).mp hv
      rw [hroot, hlinked]
      exact ⟨hown.symm.trans, hown.trans⟩
    have hnodup : found.Nodup := (List.nodup_flatten.mp hg.components_nodup).1 found hfound
    have hperm : found.Perm nodes :=
      (List.perm_ext_iff_of_nodup hnodup (hincreasing.imp ne_of_lt)).mpr hmem
    have hlong : 1 < found.length := hperm.length_eq ▸ hlength
    refine ⟨found, ⟨hfound, hlong⟩, ?_⟩
    exact (hg.strongComponent_of_mem hfound hlong).increasing.eq_of_mem_iff hincreasing
      (fun w => (sortBy_perm _ found).mem_iff.trans (hmem w))

/-- No component is reported twice, since no node is in two. -/
theorem Coherent.findCycles_nodup (hg : g.Coherent) : g.findCycles.Nodup := by
  have hapart := (List.nodup_flatten.mp hg.components_nodup).2
  unfold findCycles List.Nodup
  rw [List.pairwise_map]
  refine (hapart.filter _).imp_of_mem ?_
  intro first second hfirst _ hdisjoint hsame
  have hlength := of_decide_eq_true (List.mem_filter.mp hfirst).2
  obtain ⟨v, hv⟩ := List.exists_mem_of_length_pos (Nat.zero_lt_one.trans hlength)
  have hother : v ∈ second := by
    rw [← (sortBy_perm (fun a b => decide (a ≤ b)) second).mem_iff, ← hsame]
    exact (sortBy_perm _ first).mem_iff.mpr hv
  exact hdisjoint hv hother

/-- Every cycle links two nodes and is reported. -/
theorem Coherent.findCycles_eq_nil_iff (hg : g.Coherent) :
    g.findCycles = [] ↔ Acyclic g.Leads := by
  rw [List.eq_nil_iff_forall_not_mem]
  simp only [hg.mem_findCycles]
  constructor
  · intro hnone v hcycle
    obtain ⟨w, hfirst, hrest⟩ := TransGen.head'_iff.mp hcycle
    have hne : v ≠ w := fun heq => hg.not_leads_self v (heq ▸ hfirst)
    have hlt : v < g.nodeCount := (hg.leads_lt hfirst).1
    obtain ⟨found, hfound, hv⟩ := List.mem_flatten.mp
      (hg.components_perm.mem_iff.mpr (List.mem_range.mpr hlt))
    obtain ⟨root, hroot⟩ := isComponent_heads_iff.mp
      ((ComponentSearch.run_components hg.heads_lt).2 found hfound)
    have hw : w ∈ found :=
      (hroot w).mpr (((hroot v).mp hv).trans ⟨ReflTransGen.single hfirst, hrest⟩)
    have hnodup : [v, w].Nodup := by simpa using hne
    have hsub : [v, w] ⊆ found := by simp [hv, hw]
    exact hnone _ (hg.strongComponent_of_mem hfound (hnodup.subperm hsub).length_le)
  · rintro hacyclic nodes ⟨hincreasing, hlength, v, _, hlinked⟩
    have hsubset : nodes ⊆ [v] := by
      intro w hw
      obtain ⟨hahead, hback⟩ := (hlinked w).mp hw
      rcases reflTransGen_iff_eq_or_transGen.mp hahead with heq | hchain
      · simp [heq]
      · exact absurd (hchain.trans_left hback) (hacyclic v)
    have hnodup : nodes.Nodup := hincreasing.imp ne_of_lt
    have hle := (hnodup.subperm hsubset).length_le
    rw [List.length_singleton] at hle
    omega

/-- No node leads back to itself, so there is no cycle to report and the nodes have an order. -/
structure CycleFree (g : CausalGraph α) : Prop where
  acyclic : Acyclic g.Leads
  no_cycles : g.findCycles = []
  ordered : ∃ order, g.topologicalOrder? = some order ∧ order.Perm (List.range g.nodeCount)

theorem Coherent.cycleFree (hg : g.Coherent) (hacyclic : Acyclic g.Leads) : g.CycleFree where
  acyclic := hacyclic
  no_cycles := hg.findCycles_eq_nil_iff.mpr hacyclic
  ordered := exists_topologicalOrder hg hacyclic

/-- For every graph that is built and edited: the reported cycles are the components of two or more
nodes, there is an order exactly when none is reported, and the order puts every body in front of its
head. -/
theorem cycle_checks_agree (hg : g.Constructed) :
    (g.findCycles.Nodup ∧ ∀ nodes, nodes ∈ g.findCycles ↔ g.StrongComponent nodes) ∧
      ((∃ order, g.topologicalOrder? = some order) ↔ g.findCycles = []) ∧
      ∀ order, g.topologicalOrder? = some order →
        order.Perm (List.range g.nodeCount) ∧
          ∀ head body, (head, body) ∈ g.sums ∨ (head, body) ∈ g.prods →
            ∀ sub ∈ body, order.idxOf sub < order.idxOf head := by
  have hcoherent := hg.coherent
  refine ⟨⟨hcoherent.findCycles_nodup, fun nodes => hcoherent.mem_findCycles⟩, ?_, ?_⟩
  · exact hcoherent.topologicalOrder?_isSome_iff.trans hcoherent.findCycles_eq_nil_iff.symm
  · intro order horder
    obtain ⟨hperm, hfront⟩ := hcoherent.topologicalOrder?_spec horder
    exact ⟨hperm, fun head body hd sub hsub => hfront sub head (leads_iff.mpr ⟨body, hd, hsub⟩)⟩

/-! ## A loop that an edit closes -/

def openLoop : CausalGraph ℚ :=
  ⟨"loop", ["A", "X", "P", "Q"], [0], [(1, [2, 3])], [(2, [0]), (3, [0])], [], []⟩

/-- X is P or Q, and now P is X. -/
def closedLoop : CausalGraph ℚ :=
  { openLoop with prods := [(2, [1]), (3, [0])] }

theorem openLoop_constructed : openLoop.Constructed := by
  have hbuild : CausalGraph.build "loop" ["A", "X", "P", "Q"] ["A"] [("X", ["P", "Q"])]
      [("P", ["A"]), ("Q", ["A"])] = .ok openLoop := rfl
  exact .build hbuild

theorem closedLoop_constructed : closedLoop.Constructed := by
  have hedit : openLoop.setProd 2 [1] = .ok closedLoop := rfl
  exact openLoop_constructed.setProd hedit

theorem loops_checked :
    (∃ order, openLoop.topologicalOrder? = some order ∧ order.Perm (List.range 4)) ∧
      closedLoop.StrongComponent [1, 2] ∧
      ¬ ∃ order, closedLoop.topologicalOrder? = some order := by
  obtain ⟨_, hopen, hfront⟩ := cycle_checks_agree openLoop_constructed
  obtain ⟨⟨_, hcomponents⟩, hclosed, _⟩ := cycle_checks_agree closedLoop_constructed
  have hcycle : closedLoop.findCycles = [[1, 2]] := by decide
  refine ⟨?_, ?_, ?_⟩
  · obtain ⟨order, horder⟩ := hopen.mpr (by decide)
    exact ⟨order, horder, (hfront order horder).1⟩
  · rw [← hcomponents, hcycle]
    exact List.mem_singleton_self _
  · rw [hclosed, hcycle]
    exact List.cons_ne_nil _ _

end CausalGraph

end DerivationBelief

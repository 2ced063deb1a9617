import DerivationBelief.Proofs.TemplateShape
import Mathlib.Tactic

/-!
# Variables of replicas

A layout gives every part of every replica a variable of its own.  The parts of one replica have the
variables of one block, in order, and the blocks follow each other behind the parameters.
-/

namespace DerivationBelief

namespace VariableLayout

variable (l : VariableLayout)

/-- The variable that the layout gives to a part of a replica. -/
def partVar? (replica : Nat) : ReplicaPart → Option Nat
  | .node n => some (l.nodeVar replica n)
  | .latent n => l.latentVar? replica n
  | .phony place => some (l.phonyVar replica place)

/-- Parameters are their own variables in every replica. -/
def numbering (replica : Nat) : Numbering Nat where
  parameter dist := dist
  part p := (l.partVar? replica p).getD 0

theorem flatMap_blocks (first width count : Nat) :
    (List.range count).flatMap (fun r => List.range' (first + r * width) width) =
      List.range' first (width * count) := by
  induction count with
  | zero => simp
  | succ count ih =>
      rw [List.range_succ, List.flatMap_append, ih, List.flatMap_singleton, Nat.mul_comm count,
        List.range'_append_1, Nat.mul_succ]

theorem range_factorCount :
    List.range l.factorCount =
      List.range l.distCount ++ List.range' l.distCount (l.shift * (l.repetitions + 1)) := by
  have happend := @List.range'_append_1 0 l.distCount (l.shift * (l.repetitions + 1))
  rw [Nat.zero_add] at happend
  rw [List.range_eq_range', List.range_eq_range', happend]
  rfl

end VariableLayout

namespace FactorGraph

namespace Lowering

section Layout

variable {α : Type} (c : Lowering α)

/-- The layout of a graph that is lowered with some phony nodes. -/
def layout (phonyCount repetitions : Nat) : VariableLayout where
  distCount := c.graph.distCount
  nodeCount := c.graph.nodeCount
  latents := c.latents
  phonyCount := phonyCount
  bayesian := c.bayesian
  repetitions := repetitions

variable {c} {phonyCount : Nat}

@[simp] theorem node_mem_parts {n : Nat} :
    .node n ∈ c.parts phonyCount ↔ n < c.graph.nodeCount := by
  simp [parts]

@[simp] theorem latent_mem_parts {n : Nat} :
    .latent n ∈ c.parts phonyCount ↔ n ∈ c.gates := by
  simp [parts]

@[simp] theorem phony_mem_parts {place : Nat} :
    .phony place ∈ c.parts phonyCount ↔ place < phonyCount := by
  simp [parts]

variable {repetitions replica : Nat}

theorem latentCount_layout : (c.layout phonyCount repetitions).latentCount = c.gates.length := by
  unfold VariableLayout.latentCount gates layout
  cases c.bayesian <;> rfl

theorem phonyBase_eq : c.phonyBase = c.graph.nodeCount + c.gates.length := by
  unfold phonyBase gates
  cases c.bayesian <;> rfl

theorem bayesian_of_gate {n : Nat} (hn : n ∈ c.gates) : c.bayesian = true := by
  by_contra hdirect
  simp [gates, hdirect] at hn

theorem gates_of_mem {n : Nat} (hn : n ∈ c.gates) : c.gates = c.latents :=
  if_pos (bayesian_of_gate hn)

theorem gates_nodup : c.gates.Nodup := by
  unfold gates
  cases c.bayesian <;> simp [latents_nodup]

theorem latentVar?_of_gate {n : Nat} (hn : n ∈ c.gates) :
    (c.layout phonyCount repetitions).latentVar? replica n =
      some ((c.layout phonyCount repetitions).offset replica + c.graph.nodeCount +
        c.gates.idxOf n) := by
  have hbayesian := bayesian_of_gate hn
  have hlatent : n ∈ c.latents := gates_of_mem hn ▸ hn
  rw [gates_of_mem hn]
  unfold VariableLayout.latentVar?
  simp [layout, hbayesian, Arrival.position?_eq_some_iff.mpr ⟨hlatent, rfl⟩]

theorem gates_map_latentVar? (phonyCount repetitions replica : Nat) :
    c.gates.map ((c.layout phonyCount repetitions).latentVar? replica) =
      (List.range' ((c.layout phonyCount repetitions).offset replica + c.graph.nodeCount)
        c.gates.length).map some := by
  apply List.ext_getElem
  · simp
  · intro i hi _
    have hlt : i < c.gates.length := by simpa using hi
    rw [List.getElem_map, latentVar?_of_gate (List.getElem_mem hlt),
      gates_nodup.idxOf_getElem i hlt]
    simp

/-- The parts of a replica have the variables of its block, in order. -/
theorem parts_map_partVar? :
    (c.parts phonyCount).map ((c.layout phonyCount repetitions).partVar? replica) =
      (List.range' ((c.layout phonyCount repetitions).offset replica)
        (c.layout phonyCount repetitions).shift).map some := by
  set l := c.layout phonyCount repetitions with hl
  have hshift : l.shift = c.graph.nodeCount + c.gates.length + phonyCount := by
    have hlatents : l.latentCount = c.gates.length := latentCount_layout
    unfold VariableLayout.shift
    rw [hlatents, Nat.add_comm c.gates.length]
    rfl
  have hnodes : (List.range c.graph.nodeCount).map (fun n => some (l.nodeVar replica n)) =
      (List.range' (l.offset replica) c.graph.nodeCount).map some := by
    rw [List.range'_eq_map_range, List.map_map]
    rfl
  have hphonies : (List.range phonyCount).map (fun place => some (l.phonyVar replica place)) =
      (List.range' (l.offset replica + c.graph.nodeCount + c.gates.length) phonyCount).map
        some := by
    rw [List.range'_eq_map_range, List.map_map]
    unfold VariableLayout.phonyVar
    rw [latentCount_layout]
    rfl
  have hgates := gates_map_latentVar? (c := c) phonyCount repetitions replica
  rw [← hl] at hgates
  unfold parts
  rw [hshift, ← List.range'_append_1, ← List.range'_append_1]
  simp only [List.map_append, List.map_map]
  rw [← hnodes, ← hgates, ← Nat.add_assoc, ← hphonies]
  rfl

theorem addresses_eq (phonyCount repetitions : Nat) :
    (List.range (repetitions + 1)).flatMap (fun r =>
        (c.parts phonyCount).map ((c.layout phonyCount repetitions).partVar? r)) =
      (List.range' c.graph.distCount
        ((c.layout phonyCount repetitions).shift * (repetitions + 1))).map some := by
  simp only [parts_map_partVar?]
  rw [← List.map_flatMap]
  congr 1
  exact VariableLayout.flatMap_blocks c.graph.distCount _ (repetitions + 1)

theorem partVar?_of_mem {p : ReplicaPart} (hp : p ∈ c.parts phonyCount) :
    (c.layout phonyCount repetitions).partVar? replica p =
      some (((c.layout phonyCount repetitions).numbering replica).part p) := by
  have hmem := List.mem_map_of_mem hp
    (f := (c.layout phonyCount repetitions).partVar? replica)
  rw [parts_map_partVar?] at hmem
  obtain ⟨v, _, hv⟩ := List.mem_map.mp hmem
  simp [VariableLayout.numbering, ← hv]

theorem part_mem_block {p : ReplicaPart} (hp : p ∈ c.parts phonyCount) :
    (c.layout phonyCount repetitions).offset replica ≤
        ((c.layout phonyCount repetitions).numbering replica).part p ∧
      ((c.layout phonyCount repetitions).numbering replica).part p <
        (c.layout phonyCount repetitions).offset (replica + 1) := by
  have hmem := List.mem_map_of_mem hp
    (f := (c.layout phonyCount repetitions).partVar? replica)
  rw [parts_map_partVar?, partVar?_of_mem hp] at hmem
  obtain ⟨v, hv, heq⟩ := List.mem_map.mp hmem
  cases heq
  have hrange := List.mem_range'_1.mp hv
  have hnext : (c.layout phonyCount repetitions).offset (replica + 1) =
      (c.layout phonyCount repetitions).offset replica +
        (c.layout phonyCount repetitions).shift := by
    unfold VariableLayout.offset
    ring
  omega

/-- Different parts have different variables, which are no parameters. -/
structure Separates (c : Lowering α) (phonyCount : Nat) {ν : Type} (ids : Numbering ν) :
    Prop where
  part_inj : ∀ p ∈ c.parts phonyCount, ∀ q ∈ c.parts phonyCount, ids.part p = ids.part q → p = q
  part_ne_parameter : ∀ p ∈ c.parts phonyCount, ∀ dist < c.graph.distCount,
    ids.part p ≠ ids.parameter dist

theorem numbering_separates :
    Separates c phonyCount ((c.layout phonyCount repetitions).numbering replica) where
  part_inj := by
    intro p hp q hq heq
    have hnodup : ((c.parts phonyCount).map
        ((c.layout phonyCount repetitions).partVar? replica)).Nodup := by
      rw [parts_map_partVar?]
      exact (List.nodup_range' 1).map (Option.some_injective Nat)
    apply List.inj_on_of_nodup_map hnodup hp hq
    rw [partVar?_of_mem hp, partVar?_of_mem hq, heq]
  part_ne_parameter := by
    intro p hp dist hdist heq
    have hlow : (c.layout phonyCount repetitions).offset replica ≤
        ((c.layout phonyCount repetitions).numbering replica).part p := (part_mem_block hp).1
    have hoffset : c.graph.distCount ≤ (c.layout phonyCount repetitions).offset replica :=
      Nat.le_add_right _ _
    rw [heq] at hlow
    change _ ≤ dist at hlow
    omega

/-- The variables of the template become those of the layout. -/
theorem resolve_slots (hp : p ∈ c.parts phonyCount) :
    (c.slots.part p).resolve ((c.layout phonyCount repetitions).offset replica) =
      ((c.layout phonyCount repetitions).numbering replica).part p := by
  cases p with
  | node n => rfl
  | latent n =>
      have hgate := latent_mem_parts.mp hp
      simp [VariableLayout.numbering, VariableLayout.partVar?, latentVar?_of_gate hgate, slots,
        latentSlot, Slot.resolve, gates_of_mem hgate, Nat.add_assoc]
  | phony place =>
      simp [VariableLayout.numbering, VariableLayout.partVar?, VariableLayout.phonyVar,
        latentCount_layout, slots, phonyBase_eq, Slot.resolve, Nat.add_assoc]
      rfl

end Layout

end Lowering

end FactorGraph

end DerivationBelief

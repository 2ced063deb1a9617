import DerivationBelief.Proofs.ReplicaVariables
import DerivationBelief.Proofs.TotalMass
import Mathlib.Tactic

/-!
# The probability of an event

An event belongs to some worlds, and its probability is the total probability of these.  Worlds are
assignments of the variables of a layout.  Which layout that is does not matter: another one only
renames the variables, and whether it has phony ones or not no world depends on them.
-/

namespace DerivationBelief

/-! ## The variables of a layout -/

namespace VariableLayout

variable (l : VariableLayout)

theorem block_vars (replica : Nat) :
    l.nodeVars replica ++ l.latentVars replica ++
        (List.range l.phonyCount).map (l.phonyVar replica) =
      List.range' (l.offset replica) l.shift := by
  have hnodes : l.nodeVars replica = List.range' (l.offset replica) l.nodeCount := by
    rw [List.range'_eq_map_range]
    rfl
  have hlatents : l.latentVars replica =
      List.range' (l.offset replica + l.nodeCount) l.latentCount := by
    rw [List.range'_eq_map_range]
    rfl
  have hphonies : (List.range l.phonyCount).map (l.phonyVar replica) =
      List.range' (l.offset replica + (l.nodeCount + l.latentCount)) l.phonyCount := by
    rw [List.range'_eq_map_range, ← Nat.add_assoc]
    rfl
  have hshift : l.shift = l.nodeCount + l.latentCount + l.phonyCount := by
    unfold shift
    omega
  rw [hnodes, hlatents, hphonies, List.range'_append_1, List.range'_append_1, hshift]

/-- The variables of all replicas and the parameters are all variables. -/
theorem vars_perm : (l.phonyVars ++ l.worldVars).Perm (List.range l.factorCount) := by
  have hblocks : ((List.range (l.repetitions + 1)).flatMap (fun r =>
      l.nodeVars r ++ l.latentVars r) ++ l.phonyVars).Perm
        (List.range' l.distCount (l.shift * (l.repetitions + 1))) := by
    refine (List.flatMap_append_perm _ _ _).trans (List.Perm.of_eq ?_)
    rw [← flatMap_blocks]
    congr 1
    funext r
    exact l.block_vars r
  unfold worldVars
  rw [range_factorCount, ← List.append_assoc]
  exact (List.perm_append_comm.trans ((List.perm_append_comm.trans hblocks).append_left _))

theorem worldVars_nodup : l.worldVars.Nodup := by
  have hnodup : (l.phonyVars ++ l.worldVars).Nodup := l.vars_perm.nodup_iff.mpr List.nodup_range
  exact (List.nodup_append.mp hnodup).2.1

end VariableLayout

/-! ## Worlds that agree -/

/-- Worlds agree on everything that a graph with some replicas has. -/
structure World.Agrees (g : CausalGraph ℚ) (repetitions : Nat) (w other : World) : Prop where
  draw : ∀ dist < g.distCount, w.draw dist = other.draw dist
  node : ∀ r ≤ repetitions, ∀ n < g.nodeCount, w.node r n = other.node r n
  latent : ∀ r ≤ repetitions, ∀ n, w.latent r n = other.latent r n

namespace CausalGraph

variable {g : CausalGraph ℚ} {bayesian : Bool} {repetitions : Nat} {w other : World}

theorem chanceOf_congr (hw : w.Agrees g repetitions other) (n : Nat) :
    g.chanceOf bayesian w n = g.chanceOf bayesian other n := by
  unfold chanceOf
  cases g.distOf? n with
  | none => rfl
  | some dist =>
      dsimp only
      cases hd : g.dists[dist]? with
      | none => rfl
      | some d =>
          dsimp only
          rw [hw.draw dist (List.getElem?_eq_some_iff.mp hd).1]

theorem lets_congr (hg : g.Coherent) (hw : w.Agrees g repetitions other) {r : Nat}
    (hr : r ≤ repetitions) (n : Nat) : g.lets bayesian w r n = g.lets bayesian other r n := by
  unfold lets
  cases hdist : g.distOf? n with
  | none => rfl
  | some dist =>
      dsimp only
      rw [hw.latent r hr n, hw.draw dist (hg.stochastic_lt _ (Arrival.mem_of_get? hdist)).2]

theorem nodeProbability_congr (hg : g.Coherent) (hw : w.Agrees g repetitions other) {r n : Nat}
    (hr : r ≤ repetitions) (hn : n < g.nodeCount) :
    g.nodeProbability bayesian w r n = g.nodeProbability bayesian other r n := by
  unfold nodeProbability
  rw [hw.node r hr n hn]
  cases hderivation : g.derivation? n with
  | none =>
      dsimp only
      rw [chanceOf_congr hw]
  | some derivation =>
      obtain ⟨connective, body⟩ := derivation
      have hbody : connective.derives body (w.node r) = connective.derives body (other.node r) := by
        apply derives_congr
        intro b hb
        exact hw.node r hr b (hg.bodyOf_lt (derivation?_subset hderivation hb))
      dsimp only
      rw [lets_congr hg hw hr, hbody]

theorem worldProbability_congr (hg : g.Coherent) (hw : w.Agrees g repetitions other) :
    g.worldProbability bayesian w repetitions = g.worldProbability bayesian other repetitions := by
  have hdraws : g.drawsProbability bayesian w = g.drawsProbability bayesian other := by
    unfold drawsProbability
    congr 1
    apply List.map_congr_left
    intro entry hentry
    rw [hw.draw entry.2 (List.snd_lt_of_mem_zipIdx hentry)]
  unfold worldProbability
  rw [hdraws]
  congr 2
  apply List.map_congr_left
  intro r hr
  have hr : r ≤ repetitions := Nat.le_of_lt_succ (List.mem_range.mp hr)
  unfold replicaProbability latentsProbability latentProbability
  simp only [chanceOf_congr hw, hw.latent r hr]
  congr 2
  apply List.map_congr_left
  intro n hn
  exact nodeProbability_congr hg hw hr (List.mem_range.mp hn)

/-! ## No world has a negative probability -/

theorem getD_unit {values : List ℚ} (hvalues : ∀ x ∈ values, 0 ≤ x ∧ x ≤ 1) (i : Nat) :
    0 ≤ values.getD i 0 ∧ values.getD i 0 ≤ 1 := by
  rw [List.getD_eq_getElem?_getD]
  cases hget : values[i]? with
  | none => simp
  | some x => exact hvalues x (List.mem_of_getElem? hget)

theorem chanceOf_unit (hdists : ∀ d ∈ g.dists, d.WellFormed) (n : Nat) :
    0 ≤ g.chanceOf bayesian w n ∧ g.chanceOf bayesian w n ≤ 1 := by
  unfold chanceOf
  cases g.distOf? n with
  | none => norm_num
  | some dist =>
      dsimp only
      cases hd : g.dists[dist]? with
      | none => norm_num
      | some d =>
          dsimp only
          unfold Distribution.drawnChance
          split
          · exact getD_unit (hdists d (List.mem_of_getElem? hd)).unit _
          · split <;> norm_num

theorem chance_nonneg {truth : ℚ} (htruth : 0 ≤ truth ∧ truth ≤ 1) (value : Bool) :
    0 ≤ Factor.chance truth value := by
  unfold Factor.chance
  cases value <;> simp [htruth]

end CausalGraph

theorem weighted_unit {values weights : List ℚ} (hvalues : ∀ x ∈ values, 0 ≤ x ∧ x ≤ 1)
    (hweights : ∀ p ∈ weights, 0 ≤ p) :
    0 ≤ ((values.zip weights).map (fun entry => entry.1 * entry.2)).sum ∧
      ((values.zip weights).map (fun entry => entry.1 * entry.2)).sum ≤ weights.sum := by
  induction values generalizing weights with
  | nil => simpa using List.sum_nonneg hweights
  | cons x values ih =>
      cases weights with
      | nil => simp
      | cons p weights =>
          rw [List.forall_mem_cons] at hvalues hweights
          obtain ⟨hlow, hhigh⟩ := ih hvalues.2 hweights.2
          have hfirst : 0 ≤ x * p := mul_nonneg hvalues.1.1 hweights.1
          have hbound : x * p ≤ p := mul_le_of_le_one_left hweights.1 hvalues.1.2
          simp only [List.zip_cons_cons, List.map_cons, List.sum_cons]
          constructor <;> linarith

theorem Distribution.WellFormed.mean_unit {d : Distribution ℚ} (hd : d.WellFormed) :
    0 ≤ d.mean ∧ d.mean ≤ 1 := by
  unfold mean entries
  rw [Scalar.sum_eq, ← hd.total]
  exact weighted_unit hd.unit hd.nonneg

theorem Distribution.WellFormed.drawProbability_nonneg {d : Distribution ℚ} (hd : d.WellFormed)
    (bayesian : Bool) (state : Nat) : 0 ≤ d.drawProbability bayesian state := by
  unfold drawProbability
  split
  · rw [List.getD_eq_getElem?_getD]
    cases hget : d.probabilities[state]? with
    | none => simp
    | some p => exact hd.nonneg p (List.mem_of_getElem? hget)
  · exact CausalGraph.chance_nonneg hd.mean_unit _

namespace CausalGraph

variable {g : CausalGraph ℚ} {bayesian : Bool} {repetitions : Nat}

theorem worldProbability_nonneg (hdists : ∀ d ∈ g.dists, d.WellFormed) (w : World) :
    0 ≤ g.worldProbability bayesian w repetitions := by
  have hchance : ∀ n value, 0 ≤ Factor.chance (g.chanceOf bayesian w n) value :=
    fun n => chance_nonneg (chanceOf_unit hdists n)
  have hnode : ∀ r n, 0 ≤ g.nodeProbability bayesian w r n := by
    intro r n
    unfold nodeProbability
    split
    · unfold agreement
      split <;> norm_num
    · exact hchance n _
  have hlatents : ∀ r, 0 ≤ g.latentsProbability bayesian w r := by
    intro r
    unfold latentsProbability
    split
    · exact List.prod_nonneg (List.forall_mem_map.mpr fun n _ => hchance n _)
    · norm_num
  refine mul_nonneg (List.prod_nonneg (List.forall_mem_map.mpr fun r _ => mul_nonneg ?_ ?_)) ?_
  · exact List.prod_nonneg (List.forall_mem_map.mpr fun n _ => hnode r n)
  · exact hlatents r
  · refine List.prod_nonneg (List.forall_mem_map.mpr fun entry hentry => ?_)
    exact (hdists _ (List.fst_mem_of_mem_zipIdx hentry)).drawProbability_nonneg bayesian _

/-! ## Events -/

/-- The variables of a graph without phony ones. -/
def worldLayout (g : CausalGraph ℚ) (bayesian : Bool) (repetitions : Nat) : VariableLayout where
  distCount := g.distCount
  nodeCount := g.nodeCount
  latents := g.gatedNodes
  phonyCount := 0
  bayesian := bayesian
  repetitions := repetitions

theorem worldLayout_describes (g : CausalGraph ℚ) (bayesian : Bool) (repetitions : Nat) :
    (g.worldLayout bayesian repetitions).Describes g bayesian :=
  ⟨rfl, rfl, rfl, rfl⟩

/-- The total probability of the worlds of an event. -/
def probability (g : CausalGraph ℚ) (bayesian : Bool) (repetitions : Nat) (event : World → Prop)
    [DecidablePred event] : ℚ :=
  let l := g.worldLayout bayesian repetitions
  sumStates (g.stateCount bayesian) l.worldVars
    (fun a => if event (l.world a) then g.worldProbability bayesian (l.world a) repetitions else 0)
    (fun _ => 0)

/-- The probability of every state that a distribution draws, given an event. -/
def drawsGiven (g : CausalGraph ℚ) (bayesian : Bool) (repetitions : Nat) (event : World → Prop)
    [DecidablePred event] (dist : Nat) : List ℚ :=
  (List.range (g.stateCount bayesian dist)).map (fun state =>
    g.probability bayesian repetitions (fun w => w.draw dist = state ∧ event w) /
      g.probability bayesian repetitions event)

theorem probability_nonneg (hdists : ∀ d ∈ g.dists, d.WellFormed) (event : World → Prop)
    [DecidablePred event] : 0 ≤ g.probability bayesian repetitions event := by
  apply sumStates_nonneg
  intro a
  split
  · exact worldProbability_nonneg hdists _
  · exact le_refl 0

theorem probability_congr {event other : World → Prop} [DecidablePred event]
    [DecidablePred other] (hiff : ∀ w, event w ↔ other w) :
    g.probability bayesian repetitions event = g.probability bayesian repetitions other := by
  unfold probability
  simp only [hiff]

theorem drawsGiven_congr {event other : World → Prop} [DecidablePred event]
    [DecidablePred other] (hiff : ∀ w, event w ↔ other w) {dist : Nat} :
    g.drawsGiven bayesian repetitions event dist =
      g.drawsGiven bayesian repetitions other dist := by
  unfold drawsGiven
  simp only [probability_congr hiff, probability_congr (fun w => and_congr_right' (hiff w))]

theorem stateCount_pos (hdists : ∀ d ∈ g.dists, d.WellFormed) (v : Nat) :
    0 < g.stateCount bayesian v := by
  unfold stateCount
  split
  · cases hd : g.dists[v]? with
    | none => exact Nat.two_pos
    | some d =>
        have hwell := hdists d (List.mem_of_getElem? hd)
        dsimp only
        rw [hwell.length_eq, List.length_pos_iff]
        intro hnil
        have htotal := hwell.total
        rw [hnil, List.sum_nil] at htotal
        exact zero_ne_one htotal
  · exact Nat.two_pos

/-- Without a cycle the certain event has probability one. -/
theorem probability_certain (hg : g.Coherent) (hacyclic : Acyclic g.Derives)
    (hdists : ∀ d ∈ g.dists, d.WellFormed) :
    g.probability bayesian repetitions (fun _ => True) = 1 := by
  unfold probability
  simp only [if_true]
  exact worldProbability_sum (worldLayout_describes g bayesian repetitions) hg hacyclic hdists
    (fun v => stateCount_pos hdists v)

/-! ## Any layout gives the same probability -/

section Layouts

variable {l m : VariableLayout}

/-- The variables of two layouts that stand for the same. -/
def pairedVars (l m : VariableLayout) : List (Nat × Nat) :=
  (List.range (l.repetitions + 1)).flatMap (fun r =>
    (List.range l.nodeCount).map (fun n => (l.nodeVar r n, m.nodeVar r n)) ++
      (List.range l.latentCount).map (fun place =>
        (l.offset r + l.nodeCount + place, m.offset r + m.nodeCount + place))) ++
    (List.range l.distCount).map (fun dist => (dist, dist))

theorem pairedVars_fst (l m : VariableLayout) : (pairedVars l m).map Prod.fst = l.worldVars := by
  unfold pairedVars VariableLayout.worldVars VariableLayout.nodeVars VariableLayout.latentVars
  rw [List.map_append, List.map_flatMap, List.map_map]
  congr 1
  · congr 1
    funext r
    rw [List.map_append, List.map_map, List.map_map]
    rfl
  · exact List.map_id _

theorem latentCount_eq (hl : l.Describes g bayesian) (hm : m.Describes g bayesian) :
    l.latentCount = m.latentCount := by
  unfold VariableLayout.latentCount
  rw [hl.bayesian_eq, hm.bayesian_eq, hl.latents_eq, hm.latents_eq]

theorem offset_states (hl : l.Describes g bayesian) (r place : Nat) :
    g.stateCount bayesian (l.offset r + place) = 2 := by
  apply stateCount_of_ge
  rw [← hl.distCount_eq]
  exact (l.distCount_le_offset r).trans (Nat.le_add_right _ _)

theorem pairedVars_states (hl : l.Describes g bayesian) (hm : m.Describes g bayesian)
    {p : Nat × Nat} (hp : p ∈ pairedVars l m) :
    g.stateCount bayesian p.1 = g.stateCount bayesian p.2 := by
  rcases List.mem_append.mp hp with hreplica | hparameter
  · obtain ⟨r, _, hr⟩ := List.mem_flatMap.mp hreplica
    rcases List.mem_append.mp hr with hnode | hlatent
    · obtain ⟨n, _, rfl⟩ := List.mem_map.mp hnode
      exact (offset_states hl r n).trans (offset_states hm r n).symm
    · obtain ⟨place, _, rfl⟩ := List.mem_map.mp hlatent
      dsimp only
      rw [Nat.add_assoc, Nat.add_assoc, offset_states hl, offset_states hm]
  · obtain ⟨dist, _, rfl⟩ := List.mem_map.mp hparameter
    rfl

theorem pairedVars_snd (hl : l.Describes g bayesian) (hm : m.Describes g bayesian)
    (hrepetitions : l.repetitions = m.repetitions) :
    (pairedVars l m).map Prod.snd = m.worldVars := by
  unfold pairedVars VariableLayout.worldVars VariableLayout.nodeVars VariableLayout.latentVars
  rw [hrepetitions, latentCount_eq hl hm, hl.nodeCount_eq, ← hm.nodeCount_eq, hl.distCount_eq,
    ← hm.distCount_eq, List.map_append, List.map_flatMap, List.map_map]
  congr 1
  · congr 1
    funext r
    rw [List.map_append, List.map_map, List.map_map]
    rfl
  · exact List.map_id _

/-- Assignments that agree on paired variables are the same world. -/
theorem agrees_of_paired (hl : l.Describes g bayesian) (hm : m.Describes g bayesian)
    {a b : Assignment} (hab : ∀ p ∈ pairedVars l m, a p.1 = b p.2) :
    (l.world a).Agrees g l.repetitions (m.world b) := by
  have hreplica : ∀ r ≤ l.repetitions, ∀ p ∈
      (List.range l.nodeCount).map (fun n => (l.nodeVar r n, m.nodeVar r n)) ++
        (List.range l.latentCount).map (fun place =>
          (l.offset r + l.nodeCount + place, m.offset r + m.nodeCount + place)),
      a p.1 = b p.2 := by
    intro r hr p hp
    have hrange : r ∈ List.range (l.repetitions + 1) :=
      List.mem_range.mpr (Nat.lt_succ_of_le hr)
    exact hab p (List.mem_append_left _ (List.mem_flatMap.mpr ⟨r, hrange, hp⟩))
  constructor
  case draw =>
    intro dist hdist
    rw [← hl.distCount_eq] at hdist
    exact hab (dist, dist)
      (List.mem_append_right _ (List.mem_map_of_mem (List.mem_range.mpr hdist)))
  case node =>
    intro r hr n hn
    rw [← hl.nodeCount_eq] at hn
    have hpair := hreplica r hr (l.nodeVar r n, m.nodeVar r n)
      (List.mem_append_left _ (List.mem_map.mpr ⟨n, List.mem_range.mpr hn, rfl⟩))
    unfold VariableLayout.world
    dsimp only at hpair ⊢
    rw [hpair]
  case latent =>
    intro r hr n
    unfold VariableLayout.world VariableLayout.latentVar?
    dsimp only
    rw [hl.bayesian_eq, hm.bayesian_eq, hl.latents_eq, hm.latents_eq]
    cases bayesian with
    | false => rfl
    | true =>
        rw [if_pos rfl, if_pos rfl]
        cases hplace : Arrival.position? g.gatedNodes n with
        | none => rfl
        | some place =>
            obtain ⟨hmem, rfl⟩ := Arrival.position?_eq_some_iff.mp hplace
            have hlt : g.gatedNodes.idxOf n < l.latentCount := by
              unfold VariableLayout.latentCount
              rw [hl.bayesian_eq, hl.latents_eq, if_pos rfl]
              exact List.idxOf_lt_length_of_mem hmem
            have hpair := hreplica r hr _ (List.mem_append_right _
              (List.mem_map.mpr ⟨g.gatedNodes.idxOf n, List.mem_range.mpr hlt, rfl⟩))
            dsimp only [Option.map_some] at hpair ⊢
            rw [hpair]

/-- The probability of an event that looks at nothing beyond the graph, over any layout. -/
theorem probability_eq (hg : g.Coherent) (hl : l.Describes g bayesian) {event : World → Prop}
    [DecidablePred event]
    (hevent : ∀ w other, World.Agrees g l.repetitions w other → (event w ↔ event other))
    (a : Assignment) :
    sumStates (g.stateCount bayesian) l.worldVars
        (fun b => if event (l.world b) then g.worldProbability bayesian (l.world b) l.repetitions
          else 0) a =
      g.probability bayesian l.repetitions event := by
  have hm := worldLayout_describes g bayesian l.repetitions
  set m := g.worldLayout bayesian l.repetitions with hlayout
  have hrepetitions : l.repetitions = m.repetitions := rfl
  unfold probability
  rw [← hlayout]
  dsimp only
  rw [← pairedVars_fst l m, ← pairedVars_snd hl hm hrepetitions]
  apply sumStates_rename_off
  · rw [pairedVars_fst]
    exact l.worldVars_nodup
  · rw [pairedVars_snd hl hm hrepetitions]
    exact m.worldVars_nodup
  · exact fun p hp => pairedVars_states hl hm hp
  · intro b c _ _ hbc
    have hagrees := agrees_of_paired hl hm hbc
    rw [worldProbability_congr hg hagrees]
    exact if_congr (hevent _ _ hagrees) rfl rfl

end Layouts

end CausalGraph

end DerivationBelief

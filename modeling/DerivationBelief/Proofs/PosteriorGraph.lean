import DerivationBelief.Proofs.Template
import DerivationBelief.Proofs.WeighedValues
import DerivationBelief.Proofs.WorldProbability
import Mathlib.Data.List.GetD
import Mathlib.Tactic

/-!
# The graph given an event

Given an event, each distribution draws its states with other probabilities.  A graph that takes
these for its distributions is as good as the one it came from, and it gives its nodes the same
chances for the same draws, since the values of a distribution stay what they were.
-/

namespace DerivationBelief

namespace CausalGraph

variable {g : CausalGraph ℚ} {bayesian : Bool} {repetitions : Nat} {event : World → Prop}
  [DecidablePred event]

/-! ## What is drawn given an event -/

/-- What a distribution draws splits an event into parts that add up to it. -/
theorem probability_draws (hdists : ∀ d ∈ g.dists, d.WellFormed) (dist : Nat) :
    ∑ state ∈ Finset.range (g.stateCount bayesian dist),
        g.probability bayesian repetitions (fun w => w.draw dist = state ∧ event w) =
      g.probability bayesian repetitions event := by
  set l := g.worldLayout bayesian repetitions
  have haverage := @sumStates_average (g.stateCount bayesian)
    (Finset.range (g.stateCount bayesian dist)) (fun _ => 1) l.worldVars
    (fun state a => if a dist = state ∧ event (l.world a) then
      g.worldProbability bayesian (l.world a) repetitions else 0) (fun _ => 0)
  simp only [one_mul] at haverage
  refine haverage.trans (sumStates_congr ?_ (fun v => stateCount_pos hdists v))
  intro a ha
  by_cases hevent : event (l.world a)
  · simp only [hevent, and_true]
    rw [Finset.sum_ite_eq, if_pos (Finset.mem_range.mpr (ha dist))]
    exact (if_pos hevent).symm
  · simp only [hevent, and_false, if_false, Finset.sum_const_zero]
    exact (if_neg hevent).symm

theorem drawsGiven_getD {dist state : Nat} (hstate : state < g.stateCount bayesian dist) :
    (g.drawsGiven bayesian repetitions event dist).getD state 0 =
      g.probability bayesian repetitions (fun w => w.draw dist = state ∧ event w) /
        g.probability bayesian repetitions event := by
  unfold drawsGiven
  rw [List.getD_eq_getElem _ _ (by rwa [List.length_map, List.length_range]), List.getElem_map,
    List.getElem_range]

theorem drawsGiven_length (dist : Nat) :
    (g.drawsGiven bayesian repetitions event dist).length = g.stateCount bayesian dist := by
  unfold drawsGiven
  rw [List.length_map, List.length_range]

theorem drawsGiven_nonneg (hdists : ∀ d ∈ g.dists, d.WellFormed) {dist : Nat} {p : ℚ}
    (hp : p ∈ g.drawsGiven bayesian repetitions event dist) : 0 ≤ p := by
  obtain ⟨state, _, rfl⟩ := List.mem_map.mp hp
  exact div_nonneg (probability_nonneg hdists _) (probability_nonneg hdists _)

theorem drawsGiven_sum (hdists : ∀ d ∈ g.dists, d.WellFormed)
    (hpositive : 0 < g.probability bayesian repetitions event) (dist : Nat) :
    (g.drawsGiven bayesian repetitions event dist).sum = 1 := by
  unfold drawsGiven
  rw [← List.sum_toFinset _ List.nodup_range, List.toFinset_range, ← Finset.sum_div,
    probability_draws hdists, div_self hpositive.ne']

/-- Probabilities given an event are taken as they are when a distribution is reweighed. -/
theorem reweigh_drawsGiven (hdists : ∀ d ∈ g.dists, d.WellFormed)
    (hpositive : 0 < g.probability true repetitions event) {d : Distribution ℚ} {dist : Nat}
    (hd : g.dists[dist]? = some d) :
    d.reweigh (g.drawsGiven true repetitions event dist) =
      .ok { d with probabilities := g.drawsGiven true repetitions event dist } := by
  have hlength : (g.drawsGiven true repetitions event dist).length = d.supports.length := by
    rw [drawsGiven_length]
    unfold stateCount
    rw [if_pos rfl, hd]
  rw [Distribution.reweigh_eq_ok_iff, drawsGiven_sum hdists hpositive]
  refine ⟨hlength, zero_lt_one, fun p hp => drawsGiven_nonneg hdists hp, ?_⟩
  simp only [div_one, List.map_id']

/-! ## The graph -/

/-- The graph with what its distributions draw given an event in their place. -/
def given (g : CausalGraph ℚ) (repetitions : Nat) (event : World → Prop) [DecidablePred event] :
    CausalGraph ℚ :=
  { g with dists := g.dists.zipIdx.map (fun entry =>
      { entry.1 with probabilities := g.drawsGiven true repetitions event entry.2 }) }

theorem given_distCount : (g.given repetitions event).distCount = g.distCount := by
  unfold distCount given
  rw [List.length_map, List.length_zipIdx]

theorem given_dists (dist : Nat) :
    (g.given repetitions event).dists[dist]? = g.dists[dist]?.map (fun d =>
      { d with probabilities := g.drawsGiven true repetitions event dist }) := by
  unfold given
  rw [List.getElem?_map, List.getElem?_zipIdx, Option.map_map, Nat.zero_add]
  rfl

theorem given_stateCount (v : Nat) :
    (g.given repetitions event).stateCount true v = g.stateCount true v := by
  unfold stateCount
  rw [if_pos rfl, if_pos rfl, given_dists]
  cases g.dists[v]? <;> rfl

theorem given_chanceOf (w : World) (n : Nat) :
    (g.given repetitions event).chanceOf true w n = g.chanceOf true w n := by
  have hdist : (g.given repetitions event).distOf? n = g.distOf? n := rfl
  unfold chanceOf
  rw [hdist]
  cases g.distOf? n with
  | none => rfl
  | some dist =>
      dsimp only
      rw [given_dists]
      cases g.dists[dist]? <;> rfl

theorem Proper.given (hg : g.Proper) (hpositive : 0 < g.probability true repetitions event) :
    (g.given repetitions event).Proper where
  coherent :=
    { hg.coherent with
      stochastic_lt := by
        intro entry hentry
        rw [given_distCount]
        exact hg.coherent.stochastic_lt entry hentry }
  valid := hg.valid
  dists := by
    intro d hd
    obtain ⟨⟨old, dist⟩, hentry, rfl⟩ := List.mem_map.mp hd
    have hold : g.dists[dist]? = some old := List.mem_zipIdx_iff_getElem?.mp hentry
    have hwell := hg.dists old (List.mem_of_getElem? hold)
    constructor
    case length_eq =>
      rw [drawsGiven_length]
      unfold stateCount
      rw [if_pos rfl, hold]
    case unit => exact hwell.unit
    case nonneg => exact fun p hp => drawsGiven_nonneg hg.dists hp
    case total => exact drawsGiven_sum hg.dists hpositive dist

end CausalGraph

end DerivationBelief

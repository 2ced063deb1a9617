import DerivationBelief.Proofs.HistoryProbability
import DerivationBelief.Proofs.PosteriorGraph
import Mathlib.Tactic

/-!
# Learning one parameter in steps

The replicas of a graph share nothing but what its distributions draw.  With a single distribution
every state has a likelihood for each batch, and a history multiplies them.  So the graph given a
history, of which one more batch is seen in the only replica, is the graph given the longer history:
what is divided by on the way cancels.

The replica that is free in a network of the whole history adds up to one, as long as no node derives
itself.
-/

namespace DerivationBelief

namespace CausalGraph

variable {g : CausalGraph ℚ} {history : List Batch} {batch : Batch} {state : Nat}

/-! ## A free replica -/

/-- Without a condition on it, a replica has the probability one. -/
theorem replicaMass_certain {bayesian : Bool} (hg : g.Proper) (hacyclic : Acyclic g.Derives)
    {a : Assignment} (ha : InRange (g.stateCount bayesian) a) :
    g.replicaMass (g.chanceOf bayesian (drawn a)) (fun _ => True) = 1 := by
  have hl := worldLayout_describes g bayesian 0
  have hmass := replica_sum hl hg certain_within 0 a
  simp only [if_true] at hmass
  have hchance : g.chanceOf bayesian ((g.worldLayout bayesian 0).world a) =
      g.chanceOf bayesian (drawn a) :=
    rfl
  rw [← hchance, ← hmass]
  exact replicaProbability_sum hl hg.coherent hacyclic 0 ha

/-! ## Likelihoods -/

/-- The draws in which the first distribution is in a state. -/
def stateDraws (state : Nat) : Assignment :=
  Function.update (fun _ => 0) 0 state

/-- The probability of a batch in a replica when the first distribution is in a state. -/
def likelihood (g : CausalGraph ℚ) (state : Nat) (batch : Batch) : ℚ :=
  g.batchMass (g.chanceOf true (drawn (stateDraws state))) batch

/-- The weight of a state after a history. -/
def historyWeight (g : CausalGraph ℚ) (history : List Batch) (state : Nat) : ℚ :=
  g.drawWeight true 0 state * (history.map (g.likelihood state)).prod

theorem historyWeight_append (g : CausalGraph ℚ) (history more : List Batch) (state : Nat) :
    g.historyWeight (history ++ more) state =
      g.historyWeight history state * (more.map (g.likelihood state)).prod := by
  unfold historyWeight
  rw [List.map_append, List.prod_append, mul_assoc]

theorem stateDraws_inRange (hg : g.Proper) (hstate : state < g.stateCount true 0) :
    InRange (g.stateCount true) (stateDraws state) := by
  have hzero : InRange (g.stateCount true) (fun _ => 0) := fun v => stateCount_pos hg.dists v
  exact hzero.update hstate

/-- With one distribution, a state draws with its own probability, and what holds in the replicas
depends on nothing else. -/
theorem probability_state (hg : g.Proper) (hone : g.distCount = 1)
    (hhistory : ∀ batch ∈ history, g.Observes batch) {event : (Nat → Bool) → Prop}
    [DecidablePred event] (hevent : g.Within event) (hstate : state < g.stateCount true 0) :
    g.probability true history.length
        (fun w => (w.draw 0 = state ∧ event (w.node 0)) ∧ w.Holds history) =
      g.drawWeight true 0 state *
        (g.replicaMass (g.chanceOf true (drawn (stateDraws state))) event *
          (history.map (g.likelihood state)).prod) := by
  have hdepends : DependsOn (fun a : Assignment => a 0 = state) {dist | dist < g.distCount} := by
    intro a b hab
    dsimp only
    rw [hab 0 (by simp [hone])]
  have hdraws : ∀ s, g.drawsProbability true (drawn (stateDraws s)) = g.drawWeight true 0 s := by
    intro s
    rw [drawsProbability_eq, hone]
    simp [stateDraws]
  have hsum := @probability_history g true history (fun a => a 0 = state) _ event _ hg hhistory
    hdepends hevent
  rw [hsum, hone]
  change ∑ s ∈ Finset.range (g.stateCount true 0),
    (if stateDraws s 0 = state then g.drawsProbability true (drawn (stateDraws s)) else 0) *
      (g.replicaMass (g.chanceOf true (drawn (stateDraws s))) event *
        (history.map (g.likelihood s)).prod) = _
  have hplace : ∀ s, stateDraws s 0 = s := fun s => Function.update_self _ _ _
  rw [Finset.sum_eq_single_of_mem state (Finset.mem_range.mpr hstate)]
  · rw [if_pos (hplace state), hdraws]
  · intro s _ hne
    rw [hplace, if_neg hne, zero_mul]

theorem probability_state_history (hg : g.Proper) (hacyclic : Acyclic g.Derives)
    (hone : g.distCount = 1) (hhistory : ∀ batch ∈ history, g.Observes batch)
    (hstate : state < g.stateCount true 0) :
    g.probability true history.length (fun w => w.draw 0 = state ∧ w.Holds history) =
      g.historyWeight history state := by
  have hfree := probability_state hg hone hhistory certain_within hstate
  rw [replicaMass_certain hg hacyclic (stateDraws_inRange hg hstate), one_mul] at hfree
  unfold historyWeight
  rw [← hfree]
  apply probability_congr
  simp

theorem probability_state_batch (hg : g.Proper) (hone : g.distCount = 1)
    (hbatch : g.Observes batch) (hstate : state < g.stateCount true 0) :
    g.probability true 0 (fun w => w.draw 0 = state ∧ BatchHolds batch (w.node 0)) =
      g.drawWeight true 0 state * g.likelihood state batch := by
  have hfirst := @probability_state g [] state hg hone (List.forall_mem_nil _) (BatchHolds batch) _
    hbatch.within hstate
  rw [List.map_nil, List.prod_nil, mul_one] at hfirst
  unfold likelihood batchMass
  rw [← hfirst]
  apply probability_congr
  intro w
  have hnone : w.Holds [] := by
    intro entry hentry
    cases hentry
  simp [hnone]

/-- A history that cannot have been stays so, whatever comes behind it. -/
theorem probability_holds_append (hg : g.Proper) (hacyclic : Acyclic g.Derives)
    (hone : g.distCount = 1) {more : List Batch}
    (hhistory : ∀ batch ∈ history ++ more, g.Observes batch)
    (hzero : g.probability true history.length (fun w => w.Holds history) = 0) :
    g.probability true (history ++ more).length (fun w => w.Holds (history ++ more)) = 0 := by
  have hfirst : ∀ batch ∈ history, g.Observes batch :=
    fun batch hbatch => hhistory batch (List.mem_append_left _ hbatch)
  have hparts : ∀ s ∈ Finset.range (g.stateCount true 0),
      g.probability true history.length (fun w => w.draw 0 = s ∧ w.Holds history) = 0 := by
    rw [← probability_draws hg.dists 0] at hzero
    exact (Finset.sum_eq_zero_iff_of_nonneg
      (fun s _ => probability_nonneg hg.dists _)).mp hzero
  rw [← probability_draws hg.dists 0]
  apply Finset.sum_eq_zero
  intro s hs
  have hlt := Finset.mem_range.mp hs
  have hweight := hparts s hs
  rw [probability_state_history hg hacyclic hone hfirst hlt] at hweight
  rw [probability_state_history hg hacyclic hone hhistory hlt, historyWeight_append, hweight,
    zero_mul]

/-! ## One more batch -/

theorem dist_eq_zero (hone : g.distCount = 1) {dist : Nat} {d : Distribution ℚ}
    (hd : g.dists[dist]? = some d) : dist = 0 := by
  have hlt := (List.getElem?_eq_some_iff.mp hd).1
  unfold distCount at hone
  omega

theorem Observes.given {repetitions : Nat} {event : World → Prop} [DecidablePred event]
    (hbatch : g.Observes batch) : (g.given repetitions event).Observes batch :=
  ⟨hbatch.distinct, hbatch.node_lt⟩

theorem given_drawWeight {repetitions : Nat} {event : World → Prop} [DecidablePred event]
    (hone : g.distCount = 1) (hstate : state < g.stateCount true 0) :
    (g.given repetitions event).drawWeight true 0 state =
      g.probability true repetitions (fun w => w.draw 0 = state ∧ event w) /
        g.probability true repetitions event := by
  have hfirst : 0 < g.dists.length := by
    unfold distCount at hone
    omega
  have hdist := List.getElem?_eq_getElem hfirst
  unfold drawWeight
  rw [given_dists, hdist]
  exact drawsGiven_getD hstate

theorem given_likelihood {repetitions : Nat} {event : World → Prop} [DecidablePred event] :
    (g.given repetitions event).likelihood state batch = g.likelihood state batch := by
  unfold likelihood
  rw [funext (given_chanceOf (g := g) _)]
  rfl

section Step

variable (hg : g.Proper) (hacyclic : Acyclic g.Derives) (hone : g.distCount = 1)
  (hhistory : ∀ batch ∈ history, g.Observes batch) (hbatch : g.Observes batch)
  (hpositive : 0 < g.probability true history.length (fun w => w.Holds history))

include hg hacyclic hone hhistory hbatch hpositive

/-- One more batch divides the weight of a state by the probability of what came before. -/
theorem probability_state_given (hstate : state < g.stateCount true 0) :
    (g.given history.length (fun w => w.Holds history)).probability true 0
        (fun w => w.draw 0 = state ∧ BatchHolds batch (w.node 0)) =
      g.probability true (history ++ [batch]).length
          (fun w => w.draw 0 = state ∧ w.Holds (history ++ [batch])) /
        g.probability true history.length (fun w => w.Holds history) := by
  have hall : ∀ seen ∈ history ++ [batch], g.Observes seen := by
    intro seen hseen
    rcases List.mem_append.mp hseen with hold | hnew
    · exact hhistory seen hold
    · exact List.mem_singleton.mp hnew ▸ hbatch
  calc
    (g.given history.length (fun w => w.Holds history)).probability true 0
        (fun w => w.draw 0 = state ∧ BatchHolds batch (w.node 0))
        = (g.given history.length (fun w => w.Holds history)).drawWeight true 0 state *
            (g.given history.length (fun w => w.Holds history)).likelihood state batch :=
          probability_state_batch (hg.given hpositive) (given_distCount.trans hone) hbatch.given
            (by rwa [given_stateCount])
    _ = g.historyWeight history state /
            g.probability true history.length (fun w => w.Holds history) *
          g.likelihood state batch := by
          rw [given_drawWeight hone hstate, given_likelihood,
            probability_state_history hg hacyclic hone hhistory hstate]
    _ = g.historyWeight (history ++ [batch]) state /
          g.probability true history.length (fun w => w.Holds history) := by
          rw [historyWeight_append, List.map_singleton, List.prod_singleton]
          ring
    _ = _ := by rw [probability_state_history hg hacyclic hone hall hstate]

theorem probability_batch_given :
    (g.given history.length (fun w => w.Holds history)).probability true 0
        (fun w => BatchHolds batch (w.node 0)) =
      g.probability true (history ++ [batch]).length (fun w => w.Holds (history ++ [batch])) /
        g.probability true history.length (fun w => w.Holds history) := by
  rw [← probability_draws (hg.given hpositive).dists 0, ← probability_draws hg.dists 0,
    Finset.sum_div, given_stateCount]
  apply Finset.sum_congr rfl
  intro s hs
  exact probability_state_given hg hacyclic hone hhistory hbatch hpositive (Finset.mem_range.mp hs)

theorem drawsGiven_given :
    (g.given history.length (fun w => w.Holds history)).drawsGiven true 0
        (fun w => BatchHolds batch (w.node 0)) 0 =
      g.drawsGiven true (history ++ [batch]).length (fun w => w.Holds (history ++ [batch])) 0 := by
  unfold drawsGiven
  rw [given_stateCount]
  apply List.map_congr_left
  intro s hs
  rw [probability_state_given hg hacyclic hone hhistory hbatch hpositive (List.mem_range.mp hs),
    probability_batch_given hg hacyclic hone hhistory hbatch hpositive,
    div_div_div_cancel_right₀ hpositive.ne']

/-- The graph given a history, and then given one more batch in its only replica, is the graph given
all batches. -/
theorem given_given :
    (g.given history.length (fun w => w.Holds history)).given 0
        (fun w => BatchHolds batch (w.node 0)) =
      g.given (history ++ [batch]).length (fun w => w.Holds (history ++ [batch])) := by
  have hdists : ((g.given history.length (fun w => w.Holds history)).given 0
      (fun w => BatchHolds batch (w.node 0))).dists =
        (g.given (history ++ [batch]).length (fun w => w.Holds (history ++ [batch]))).dists := by
    apply List.ext_getElem?
    intro dist
    rw [given_dists, given_dists, given_dists]
    cases hd : g.dists[dist]? with
    | none => rfl
    | some d =>
        obtain rfl := dist_eq_zero hone hd
        rw [drawsGiven_given hg hacyclic hone hhistory hbatch hpositive, Option.map_some,
          Option.map_some, Option.map_some]
  exact congrArg (fun dists => { g with dists }) hdists

end Step

theorem probability_nil (hg : g.Proper) (hacyclic : Acyclic g.Derives) :
    g.probability true 0 (fun w => w.Holds []) = 1 := by
  rw [← probability_certain hg.coherent hacyclic hg.dists]
  apply probability_congr
  intro w
  exact iff_true_intro (fun entry hentry => nomatch hentry)

theorem drawsGiven_nil (hg : g.Proper) (hacyclic : Acyclic g.Derives) (hone : g.distCount = 1)
    {d : Distribution ℚ} (hd : g.dists[0]? = some d) :
    g.drawsGiven true 0 (fun w => w.Holds []) 0 = d.probabilities := by
  have hcount : g.stateCount true 0 = d.probabilities.length := by
    unfold stateCount
    rw [if_pos rfl, hd]
    exact (hg.dists d (List.mem_of_getElem? hd)).length_eq
  apply List.ext_getElem
  · rw [drawsGiven_length, hcount]
  · intro s hs hlt
    have hstate : s < g.stateCount true 0 := hcount ▸ hlt
    have hweight : g.probability true 0 (fun w => w.draw 0 = s ∧ w.Holds []) =
        g.historyWeight [] s :=
      probability_state_history hg hacyclic hone (List.forall_mem_nil _) hstate
    rw [← List.getD_eq_getElem _ 0 hs, drawsGiven_getD hstate, probability_nil hg hacyclic,
      div_one, hweight]
    unfold historyWeight drawWeight
    rw [List.map_nil, List.prod_nil, mul_one, hd]
    exact List.getD_eq_getElem _ 0 hlt

/-- Nothing is learned from no batches. -/
theorem given_nil (hg : g.Proper) (hacyclic : Acyclic g.Derives) (hone : g.distCount = 1) :
    g.given 0 (fun w => w.Holds []) = g := by
  have hdists : (g.given 0 (fun w => w.Holds [])).dists = g.dists := by
    apply List.ext_getElem?
    intro dist
    rw [given_dists]
    cases hd : g.dists[dist]? with
    | none => rfl
    | some d =>
        obtain rfl := dist_eq_zero hone hd
        rw [Option.map_some, drawsGiven_nil hg hacyclic hone hd]
  exact congrArg (fun dists => { g with dists }) hdists

end CausalGraph

end DerivationBelief

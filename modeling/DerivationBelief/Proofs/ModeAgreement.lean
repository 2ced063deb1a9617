import DerivationBelief.Proofs.EventAnswers
import DerivationBelief.Proofs.IndependentReplicas
import DerivationBelief.Proofs.OneShotRuns
import Mathlib.Tactic

/-!
# The modes agree when no two nodes share a distribution

The probability that the nodes of a replica are as an event says is affine in the chance of every
single node.  When no other node refers to the distribution of a node, averaging over what it draws
therefore comes to the same as giving the node the mean as its chance.  The direct mode draws a truth
value with the same mean, so the two modes give every event of one replica the same probability.
-/

namespace DerivationBelief

namespace CausalGraph

variable {g : CausalGraph ℚ} {bayesian : Bool}

/-- Shares that add up to one average an affine function at the average. -/
theorem holdProbability_average (g : CausalGraph ℚ) (n : Nat) (holds : Nat → Bool)
    {states : Finset Nat} {shares : Nat → ℚ} (htotal : ∑ s ∈ states, shares s = 1)
    (chances : Nat → ℚ) :
    ∑ s ∈ states, shares s * g.holdProbability n (chances s) holds =
      g.holdProbability n (∑ s ∈ states, shares s * chances s) holds := by
  have haffine : ∀ chance, g.holdProbability n chance holds =
      g.holdProbability n 0 holds +
        chance * (g.holdProbability n 1 holds - g.holdProbability n 0 holds) := by
    intro chance
    unfold holdProbability Factor.chance
    cases g.derivation? n with
    | none =>
        dsimp only
        split_ifs <;> ring
    | some derivation =>
        dsimp only
        ring
  calc
    ∑ s ∈ states, shares s * g.holdProbability n (chances s) holds
        = ∑ s ∈ states, (shares s * g.holdProbability n 0 holds + shares s * chances s *
            (g.holdProbability n 1 holds - g.holdProbability n 0 holds)) := by
          apply Finset.sum_congr rfl
          intro s _
          rw [haffine]
          ring
    _ = g.holdProbability n (∑ s ∈ states, shares s * chances s) holds := by
          rw [Finset.sum_add_distrib, ← Finset.sum_mul, ← Finset.sum_mul, htotal, one_mul,
            ← haffine]

theorem replicaMass_average {event : (Nat → Bool) → Prop} [DecidablePred event]
    (chances : Nat → ℚ) {n : Nat} (hn : n < g.nodeCount) {states : Finset Nat}
    {shares : Nat → ℚ} (htotal : ∑ s ∈ states, shares s = 1) (values : Nat → ℚ) :
    ∑ s ∈ states, shares s * g.replicaMass (Function.update chances n (values s)) event =
      g.replicaMass (Function.update chances n (∑ s ∈ states, shares s * values s)) event := by
  unfold replicaMass
  rw [sumStates_average]
  congr 1
  funext a
  by_cases hevent : event (truths a)
  · simp only [if_pos hevent]
    have hsplit : ∀ value, ∏ m ∈ Finset.range g.nodeCount,
        g.holdProbability m (Function.update chances n value m) (truths a) =
          g.holdProbability n value (truths a) *
            ∏ m ∈ (Finset.range g.nodeCount).erase n,
              g.holdProbability m (chances m) (truths a) := by
      intro value
      rw [← Finset.mul_prod_erase _ _ (Finset.mem_range.mpr hn), Function.update_self]
      congr 1
      apply Finset.prod_congr rfl
      intro m hm
      rw [Function.update_of_ne (Finset.ne_of_mem_erase hm)]
    simp only [hsplit]
    rw [← holdProbability_average g n (truths a) htotal, Finset.sum_mul]
    apply Finset.sum_congr rfl
    intro s _
    ring
  · simp only [if_neg hevent, mul_zero, Finset.sum_const_zero]

theorem sum_getD_mul {values weights : List ℚ} (hlength : values.length = weights.length) :
    ∑ i ∈ Finset.range values.length, weights.getD i 0 * values.getD i 0 =
      ((values.zip weights).map (fun entry => entry.1 * entry.2)).sum := by
  rw [← sum_getD, List.length_map, List.length_zip, hlength, min_self]
  apply Finset.sum_congr rfl
  intro i hi
  have hlt := Finset.mem_range.mp hi
  simp [hlength, hlt, mul_comm]

/-- The average chance that a distribution gives is its mean, in both modes. -/
theorem drawnChance_average {d : Distribution ℚ} (hd : d.WellFormed) {dist : Nat}
    (hdist : g.dists[dist]? = some d) :
    ∑ s ∈ Finset.range (g.stateCount bayesian dist),
      d.drawProbability bayesian s * d.drawnChance bayesian s = d.mean := by
  unfold stateCount Distribution.drawProbability Distribution.drawnChance
  cases bayesian with
  | true =>
      simp only [if_true, hdist]
      rw [sum_getD_mul hd.length_eq]
      unfold Distribution.mean Distribution.entries
      rw [Scalar.sum_eq]
  | false => simp [Factor.chance]

/-! ## Averaging over all draws -/

/-- Every distribution belongs to one node at most. -/
def Untied (g : CausalGraph ℚ) : Prop :=
  (g.stochastic.map Prod.snd).Nodup

theorem Untied.unique (huntied : g.Untied) {n m dist : Nat} (hn : g.distOf? n = some dist)
    (hm : g.distOf? m = some dist) : m = n := by
  have hpairs := List.inj_on_of_nodup_map huntied (Arrival.mem_of_get? hm)
    (Arrival.mem_of_get? hn) rfl
  exact congrArg Prod.fst hpairs

/-- The chance of a node when some distributions have been drawn and the others are averaged. -/
def partialChance (g : CausalGraph ℚ) (bayesian : Bool) (drawn : List Nat) (a : Assignment)
    (n : Nat) : ℚ :=
  match g.distOf? n with
  | none => 1
  | some dist =>
      match g.dists[dist]? with
      | none => 1
      | some d => if dist ∈ drawn then d.drawnChance bayesian (a dist) else d.mean

theorem partialChance_of_other {m dist : Nat} (hm : g.distOf? m ≠ some dist) (rest : List Nat)
    (a : Assignment) (s : Nat) :
    g.partialChance bayesian (dist :: rest) (Function.update a dist s) m =
      g.partialChance bayesian rest a m := by
  unfold partialChance
  cases hother : g.distOf? m with
  | none => rfl
  | some other =>
      have hne : other ≠ dist := by
        rintro rfl
        exact hm hother
      dsimp only
      cases g.dists[other]? with
      | none => rfl
      | some d => simp only [List.mem_cons, hne, false_or, Function.update_of_ne hne]

section Event

variable {event : (Nat → Bool) → Prop} [DecidablePred event]

/-- Averaged over what it draws, a distribution gives its node the mean as its chance. -/
theorem average_draw (hg : g.Proper) (huntied : g.Untied) {dist : Nat}
    (hdist : dist < g.distCount) {rest : List Nat} (hnew : dist ∉ rest) (a : Assignment) :
    ∑ s ∈ Finset.range (g.stateCount bayesian dist), g.drawWeight bayesian dist s *
        g.replicaMass (g.partialChance bayesian (dist :: rest) (Function.update a dist s)) event =
      g.replicaMass (g.partialChance bayesian rest a) event := by
  have hd : g.dists[dist]? = some g.dists[dist] := List.getElem?_eq_getElem hdist
  have hwell := hg.dists _ (List.getElem_mem hdist)
  have hweight : ∀ s, g.drawWeight bayesian dist s = g.dists[dist].drawProbability bayesian s := by
    intro s
    unfold drawWeight
    rw [hd]
  have htotal : ∑ s ∈ Finset.range (g.stateCount bayesian dist),
      g.dists[dist].drawProbability bayesian s = 1 := drawProbability_sum hwell hd
  simp only [hweight]
  by_cases hnode : ∃ n, g.distOf? n = some dist
  · obtain ⟨n, hn⟩ := hnode
    have hlt := (hg.coherent.stochastic_lt _ (Arrival.mem_of_get? hn)).1
    have hdrawn : ∀ s, g.partialChance bayesian (dist :: rest) (Function.update a dist s) =
        Function.update (g.partialChance bayesian rest a) n
          (g.dists[dist].drawnChance bayesian s) := by
      intro s
      funext m
      by_cases hm : m = n
      · subst m
        rw [Function.update_self]
        unfold partialChance
        rw [hn]
        dsimp only
        rw [hd]
        simp
      · rw [Function.update_of_ne hm]
        exact partialChance_of_other (fun heq => hm (huntied.unique hn heq)) rest a s
    have hmean : g.partialChance bayesian rest a n = g.dists[dist].mean := by
      unfold partialChance
      rw [hn]
      dsimp only
      rw [hd]
      simp [hnew]
    simp only [hdrawn]
    rw [replicaMass_average _ hlt htotal, drawnChance_average hwell hd, ← hmean,
      Function.update_eq_self]
  · have hsame : ∀ s, g.partialChance bayesian (dist :: rest) (Function.update a dist s) =
        g.partialChance bayesian rest a := by
      intro s
      funext m
      exact partialChance_of_other (fun hm => hnode ⟨m, hm⟩) rest a s
    simp only [hsame]
    rw [← Finset.sum_mul, htotal, one_mul]

theorem average_draws (hg : g.Proper) (huntied : g.Untied) {vars : List Nat}
    (hvars : ∀ v ∈ vars, v < g.distCount) (hnodup : vars.Nodup) (a : Assignment) :
    sumStates (g.stateCount bayesian) vars
        (fun b => (vars.map (fun dist => g.drawWeight bayesian dist (b dist))).prod *
          g.replicaMass (g.partialChance bayesian vars b) event) a =
      g.replicaMass (g.partialChance bayesian [] a) event := by
  induction vars with
  | nil => simp [sumStates]
  | cons v vars ih =>
      rw [List.forall_mem_cons] at hvars
      rw [List.nodup_cons] at hnodup
      rw [← ih hvars.2 hnodup.2, sumStates]
      congr 1
      funext b
      have hothers : ∀ s, (vars.map (fun dist =>
          g.drawWeight bayesian dist (Function.update b v s dist))).prod =
            (vars.map (fun dist => g.drawWeight bayesian dist (b dist))).prod := by
        intro s
        congr 1
        apply List.map_congr_left
        intro dist hdist
        rw [Function.update_of_ne]
        rintro rfl
        exact hnodup.1 hdist
      unfold sumState
      rw [← average_draw hg huntied hvars.1 hnodup.1 b, Finset.mul_sum]
      apply Finset.sum_congr rfl
      intro s _
      dsimp only
      rw [List.map_cons, List.prod_cons, hothers, Function.update_self]
      ring

/-- The chance of a node when its distribution is averaged. -/
def meanChance (g : CausalGraph ℚ) (n : Nat) : ℚ :=
  match (g.distOf? n).bind (fun dist => g.dists[dist]?) with
  | none => 1
  | some d => d.mean

/-- What the nodes of the only replica do is as probable as if every stochastic node had a chance of
its own, the mean of its distribution. -/
theorem probability_untied (hg : g.Proper) (huntied : g.Untied) (hevent : g.Within event) :
    g.probability bayesian 0 (fun w => event (w.node 0)) = g.replicaMass g.meanChance event := by
  have hfactors := @probability_factors g bayesian hg 0 (fun w => event (w.node 0)) _
    (fun _ => True) _ (fun _ => event) _ (by simp) (fun _ _ _ => rfl) (fun _ => hevent)
  have hall : ∀ a, g.partialChance bayesian (List.range g.distCount) a =
      g.chanceOf bayesian (drawn a) := by
    intro a
    funext n
    unfold partialChance chanceOf
    cases g.distOf? n with
    | none => rfl
    | some dist =>
        dsimp only
        cases hd : g.dists[dist]? with
        | none => rfl
        | some d =>
            have hlt : dist ∈ List.range g.distCount :=
              List.mem_range.mpr (List.getElem?_eq_some_iff.mp hd).1
            dsimp only
            rw [if_pos hlt]
            rfl
  have hnone : ∀ a, g.partialChance bayesian [] a = g.meanChance := by
    intro a
    funext n
    unfold partialChance meanChance
    cases g.distOf? n with
    | none => rfl
    | some dist =>
        rw [Option.bind_some]
        dsimp only
        cases g.dists[dist]? <;> rfl
  have haverage := @average_draws g bayesian event _ hg huntied (List.range g.distCount)
    (fun _ hv => List.mem_range.mp hv) List.nodup_range (fun _ => 0)
  rw [hfactors, ← hnone (fun _ => 0), ← haverage]
  congr 1
  funext a
  rw [if_pos trivial, drawsProbability_eq, hall]
  simp

end Event

/-- The modes give every event of the only replica the same probability. -/
theorem probability_modes {event : (Nat → Bool) → Prop} [DecidablePred event] (hg : g.Proper)
    (huntied : g.Untied) (hevent : g.Within event) :
    g.probability true 0 (fun w => event (w.node 0)) =
      g.probability false 0 (fun w => event (w.node 0)) :=
  (probability_untied hg huntied hevent).trans (probability_untied hg huntied hevent).symm

end CausalGraph

/-! ## Networks of both modes -/

namespace ReplicaNetwork

def TooLarge {β : Type} : Except NetworkFault β → Prop
  | .error (.solver (.tableTooLarge _ _)) => True
  | _ => False

variable {bound boundOther : Nat}

/-- Unless a table is too large, a question tells whether the event can happen. -/
theorem Reported.inconsistent_iff_zero {β : Type} {weight : ℚ} {right : β}
    {answer : Except NetworkFault β} (hanswer : Reported bound weight right answer)
    (hsmall : ¬ TooLarge answer) :
    answer = .error (.solver .inconsistentEvidence) ↔ weight = 0 := by
  cases hanswer with
  | answered hpositive => simp [hpositive.ne']
  | inconsistent hzero => simp [hzero]
  | tooLarge _ => exact absurd trivial hsmall

theorem Reported.ok_of_ne_zero {β : Type} {weight : ℚ} {right : β} {answer : Except NetworkFault β}
    (hanswer : Reported bound weight right answer) (hsmall : ¬ TooLarge answer)
    (hweight : weight ≠ 0) :
    answer = .ok right := by
  cases hanswer with
  | answered _ => rfl
  | inconsistent hzero => exact absurd hzero hweight
  | tooLarge _ => exact absurd trivial hsmall

/-- Answers to questions under events of the same probability contradict the evidence together. -/
theorem Reported.inconsistent_iff {β γ : Type} {weight : ℚ} {right : β} {rightOther : γ}
    {answer : Except NetworkFault β} {other : Except NetworkFault γ}
    (hanswer : Reported bound weight right answer)
    (hother : Reported boundOther weight rightOther other)
    (hsmall : ¬ TooLarge answer) (hsmallOther : ¬ TooLarge other) :
    answer = .error (.solver .inconsistentEvidence) ↔
      other = .error (.solver .inconsistentEvidence) :=
  (hanswer.inconsistent_iff_zero hsmall).trans (hother.inconsistent_iff_zero hsmallOther).symm

/-- Two answers to a question with one right answer are both right, or both find a contradiction,
unless a table is too large. -/
theorem Reported.agree {β : Type} {weight : ℚ} {right : β} {answer other : Except NetworkFault β}
    (hanswer : Reported bound weight right answer) (hother : Reported boundOther weight right other)
    (hsmall : ¬ TooLarge answer) (hsmallOther : ¬ TooLarge other) :
    (∃ p, answer = .ok p ∧ other = .ok p) ∨
      (answer = .error (.solver .inconsistentEvidence) ∧
        other = .error (.solver .inconsistentEvidence)) := by
  by_cases hweight : weight = 0
  · exact Or.inr ⟨(hanswer.inconsistent_iff_zero hsmall).mpr hweight,
      (hother.inconsistent_iff_zero hsmallOther).mpr hweight⟩
  · exact Or.inl ⟨right, hanswer.ok_of_ne_zero hsmall hweight,
      hother.ok_of_ne_zero hsmallOther hweight⟩

section Modes

variable [Numeral ℚ] {g : CausalGraph ℚ} {limit : Nat} {tree tree' : FileTree}
  {directory directory' name name' : String} {options options' : SolverOptions ℚ}
  {fine direct : ReplicaNetwork ℚ}

/-- Without tying, a single replica predicts the same in both modes under any observations, and
either both networks or neither find the observations contradictory, unless a table is too large. -/
theorem modes_predict_alike (hg : g.Constructed) (hvalid : g.validate = .ok ())
    (hdists : ∀ d ∈ g.dists, d.WellFormed) (huntied : g.Untied)
    (hfine : (create tree directory name g 0 true limit options).1 = .ok fine)
    (hdirect : (create tree' directory' name' g 0 false limit options').1 = .ok direct)
    (hlossless : ∀ f, FactorGraph.compile g 0 true limit = .ok f →
      f.Lossless (joinPath directory (name ++ ".fg")))
    (hlossless' : ∀ f, FactorGraph.compile g 0 false limit = .ok f →
      f.Lossless (joinPath directory' (name' ++ ".fg")))
    {observed : Batch} (hobserved : ∀ observation ∈ observed, observation.1 < g.nodeCount) :
    ∃ fineBound directBound, fine.bindBatch observed 0 = .ok fineBound ∧
      direct.bindBatch observed 0 = .ok directBound ∧
      (¬ TooLarge fineBound.activate → ¬ TooLarge directBound.activate →
        (fineBound.activate = .error (.solver .inconsistentEvidence) ↔
          directBound.activate = .error (.solver .inconsistentEvidence))) ∧
      ∀ node < g.nodeCount,
        ¬ TooLarge (fineBound.predict node).1 → ¬ TooLarge (directBound.predict node).1 →
          (∃ p, (fineBound.predict node).1 = .ok p ∧ (directBound.predict node).1 = .ok p) ∨
            ((fineBound.predict node).1 = .error (.solver .inconsistentEvidence) ∧
              (directBound.predict node).1 = .error (.solver .inconsistentEvidence)) := by
  have hproper : g.Proper := ⟨hg.coherent, hvalid, hdists⟩
  have hfineCreation := create_spec tree directory name g 0 true limit options
  have hdirectCreation := create_spec tree' directory' name' g 0 false limit options'
  rw [hfine] at hfineCreation
  rw [hdirect] at hdirectCreation
  obtain ⟨fineBound, hfineBound, hfineIdle, hfineReports⟩ :=
    hfineCreation.bindBatch hproper hlossless hobserved (le_refl 0)
  obtain ⟨directBound, hdirectBound, hdirectIdle, hdirectReports⟩ :=
    hdirectCreation.bindBatch hproper hlossless' hobserved (le_refl 0)
  set values := Arrival.putAll [] observed with hvalues
  have hlt : ∀ value ∈ values, value.1 < g.nodeCount := by
    intro value hvalue
    rcases Arrival.mem_putAll hvalue with hnone | hmem
    · cases hnone
    · exact hobserved value hmem
  have hwithin : g.Within (fun holds => ∀ value ∈ values, holds value.1 = value.2) := by
    intro holds other hsame
    apply forall₂_congr
    intro value hvalue
    rw [hsame _ (hlt value hvalue)]
  have hweight := CausalGraph.probability_modes hproper huntied hwithin
  refine ⟨fineBound, directBound, hfineBound, hdirectBound, ?_, ?_⟩
  · have hreported := hdirectReports.activate hproper hdirectIdle
    rw [← hweight] at hreported
    exact (hfineReports.activate hproper hfineIdle).inconsistent_iff hreported
  · intro node hnode
    have hwithinNode : g.Within (fun holds =>
        holds node = true ∧ ∀ value ∈ values, holds value.1 = value.2) := by
      intro holds other hsame
      apply and_congr
      · rw [hsame node hnode]
      · exact hwithin holds other hsame
    have hweightNode := CausalGraph.probability_modes hproper huntied hwithinNode
    have hreported := hdirectReports.predict hproper hnode
    rw [← hweight, ← hweightNode] at hreported
    exact (hfineReports.predict hproper hnode).agree hreported

end Modes

/-! ## A street without tying -/

section Street

open FactorGraph OneShotLearner

/-- Rain and the rule that makes the street wet have distributions of their own. -/
def looseStreet : CausalGraph ℚ :=
  { plainStreet with
    dists := [evenOdds, evenOdds]
    stochastic := [(0, 0), (1, 1)] }

theorem looseStreet_constructed : looseStreet.Constructed := by
  have hbuild : CausalGraph.build "street" ["rain", "wet"] ["rain"] [("wet", ["rain"])] [] =
      .ok plainStreet := rfl
  have hpriors : ((plainStreet.setPrior "rain" evenOdds).1.setPrior "wet" evenOdds).1 =
      looseStreet := rfl
  rw [← hpriors]
  exact ((CausalGraph.Constructed.build hbuild).setPrior "rain" evenOdds).setPrior "wet" evenOdds

theorem looseStreet_dists : ∀ d ∈ looseStreet.dists, d.WellFormed := by
  intro d hd
  have heq : d = evenOdds := by simpa [looseStreet] using hd
  rw [heq]
  constructor <;> norm_num [evenOdds]

theorem looseStreet_lossless (bayesian : Bool) :
    ∀ f, compile looseStreet 0 bayesian 2 = .ok f → f.Lossless "street.fg" := by
  have hreads : ∀ mode, ∀ f ∈ (compile looseStreet 0 mode 2).toOption,
      (Factor.parseAll "street.fg" f.text).toOption = some f.factors := by
    -- Without the way from characters to a string and back there is much less to evaluate.
    simp only [Factor.parseAll, FactorGraph.text, LineReader.ofText, String.toList_ofList]
    decide +kernel
  exact fun f hf => lossless_of_reads (hreads bayesian) hf

def looseNetwork (bayesian : Bool) : Except NetworkFault (ReplicaNetwork ℚ) :=
  (create .empty "" "street" looseStreet 0 bayesian 2 .default).1

/-- A street that stays dry may still have seen rain, as likely in both modes. -/
theorem looseStreet_dry (bayesian : Bool) :
    ∃ created bound, looseNetwork bayesian = .ok created ∧
      created.bindBatch [(1, false)] 0 = .ok bound ∧ (bound.predict 0).1 = .ok (1 / 3) := by
  have hvalue : ∀ mode, (do
      let f ← (compile looseStreet 0 mode 2).toOption
      let backend ← (ExactNetwork.ofFactors "street.fg" (.default : SolverOptions ℚ)
        f.factors).toOption
      let bound ← ((ReplicaNetwork.ofCompiled "street" "street.fg" looseStreet.nodeCount 0 f.layout
        backend).bindBatch [(1, false)] 0).toOption
      (bound.predict 0).1.toOption) = some (1 / 3) := by
    decide +kernel
  obtain ⟨f, hf, hvalue⟩ := Option.bind_eq_some_iff.mp (hvalue bayesian)
  obtain ⟨backend, hbackend, hvalue⟩ := Option.bind_eq_some_iff.mp hvalue
  obtain ⟨bound, hbound, hvalue⟩ := Option.bind_eq_some_iff.mp hvalue
  have hfile : joinPath "" ("street" ++ ".fg") = "street.fg" := by
    decide +kernel
  have hname : FileTree.PlainName "street.fg" := by
    constructor <;> decide +kernel
  obtain ⟨written, hwrite⟩ := hname.write?_empty f.text
  have hread : f.readBack "street.fg" (.default : SolverOptions ℚ) = .ok backend := by
    rw [(looseStreet_lossless bayesian f (eq_ok_of_toOption hf)).readBack_eq]
    exact eq_ok_of_toOption hbackend
  have hcreate := create_loaded (eq_ok_of_toOption hf) (hfile ▸ hwrite) (hfile ▸ hread)
  rw [hfile] at hcreate
  exact ⟨_, bound, congrArg Prod.fst hcreate, eq_ok_of_toOption hbound, eq_ok_of_toOption hvalue⟩

/-- Both modes find rain as likely on a street that stays dry. -/
theorem looseStreet_modes_predict_alike :
    ∃ fine direct fineBound directBound, looseNetwork true = .ok fine ∧
      looseNetwork false = .ok direct ∧ fine.bindBatch [(1, false)] 0 = .ok fineBound ∧
      direct.bindBatch [(1, false)] 0 = .ok directBound ∧
      ¬ TooLarge (fineBound.predict 0).1 ∧ ¬ TooLarge (directBound.predict 0).1 ∧
      ∃ p, (fineBound.predict 0).1 = .ok p ∧ (directBound.predict 0).1 = .ok p := by
  obtain ⟨fine, fineBound, hfine, hfineBound, hfineRain⟩ := looseStreet_dry true
  obtain ⟨direct, directBound, hdirect, hdirectBound, hdirectRain⟩ := looseStreet_dry false
  have hfile : joinPath "" ("street" ++ ".fg") = "street.fg" := by
    decide +kernel
  have huntied : looseStreet.Untied := by
    unfold CausalGraph.Untied
    decide
  have hobserved : ∀ observation ∈ ([(1, false)] : Batch),
      observation.1 < looseStreet.nodeCount := by
    decide
  obtain ⟨fineSame, directSame, hfineSame, hdirectSame, _, hpredicts⟩ :=
    modes_predict_alike looseStreet_constructed rfl looseStreet_dists huntied hfine hdirect
      (hfile ▸ looseStreet_lossless true) (hfile ▸ looseStreet_lossless false) hobserved
  cases hfineBound.symm.trans hfineSame
  cases hdirectBound.symm.trans hdirectSame
  have hfineSmall : ¬ TooLarge (fineBound.predict 0).1 := by
    rw [hfineRain]
    exact id
  have hdirectSmall : ¬ TooLarge (directBound.predict 0).1 := by
    rw [hdirectRain]
    exact id
  refine ⟨fine, direct, fineBound, directBound, hfine, hdirect, hfineBound, hdirectBound,
    hfineSmall, hdirectSmall, ?_⟩
  rcases hpredicts 0 (by decide) hfineSmall hdirectSmall with hvalue | ⟨hfault, _⟩
  · exact hvalue
  · cases hfineRain.symm.trans hfault

end Street

end ReplicaNetwork

end DerivationBelief

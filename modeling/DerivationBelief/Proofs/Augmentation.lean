import DerivationBelief.ClausePruner
import DerivationBelief.Proofs.AdmissionSearch
import Mathlib.Tactic

/-!
# Augmentation is safe and maximal

A batch that does not meet itself can be admitted without closing a cycle: a chain that leaves a
head of the batch never comes to a body of the batch.  A single rule that meets itself closes a
cycle, and it goes on to do so when more rules are admitted.  By induction over the halving, the
admitted rules have no cycle and every rule that was left out would close one.
-/

namespace DerivationBelief

open Relation

namespace ClauseIndex

variable {index : ClauseIndex} {accepted batch : List Nat}

/-! ## Admitting one batch -/

theorem feeds_append_cases {s t : Nat} (hfeeds : index.Feeds (accepted ++ batch) s t) :
    index.Feeds accepted s t ∨ index.Feeds batch s t := by
  obtain ⟨c, hc, hrest⟩ := hfeeds
  rcases List.mem_append.mp hc with hold | hnew
  · exact Or.inl ⟨c, hold, hrest⟩
  · exact Or.inr ⟨c, hnew, hrest⟩

/-- A chain from a head of an apart batch uses no rule of the batch. -/
theorem chain_of_head (hapart : ¬ index.BatchMeets accepted batch) {c t : Nat} (hc : c ∈ batch)
    (hchain : ReflTransGen (index.Feeds (accepted ++ batch)) (index.head c) t) :
    ReflTransGen (index.Feeds accepted) (index.head c) t := by
  induction hchain with
  | refl => exact ReflTransGen.refl
  | @tail s t _ hstep ih =>
      rcases feeds_append_cases hstep with hold | ⟨d, hd, _, hbody, _⟩
      · exact ih.tail hold
      · exact absurd ⟨s, ⟨d, hd, s, hbody, ReflTransGen.refl⟩, c, hc, ih⟩ hapart

theorem chain_cases {s t : Nat} (hchain : TransGen (index.Feeds (accepted ++ batch)) s t) :
    TransGen (index.Feeds accepted) s t ∨
      ∃ c ∈ batch, ∃ b ∈ index.body c,
        ReflTransGen (index.Feeds (accepted ++ batch)) s b ∧
        ReflTransGen (index.Feeds (accepted ++ batch)) (index.head c) t := by
  induction hchain with
  | single hstep =>
      rcases feeds_append_cases hstep with hold | ⟨c, hc, _, hbody, rfl⟩
      · exact Or.inl (TransGen.single hold)
      · exact Or.inr ⟨c, hc, s, hbody, ReflTransGen.refl, ReflTransGen.refl⟩
  | tail hpath hstep ih =>
      rcases ih with hold | ⟨c, hc, b, hb, hbefore, hafter⟩
      · rcases feeds_append_cases hstep with hlast | ⟨c, hc, _, hbody, rfl⟩
        · exact Or.inl (hold.tail hlast)
        · exact Or.inr ⟨c, hc, _, hbody, hpath.to_reflTransGen, ReflTransGen.refl⟩
      · exact Or.inr ⟨c, hc, b, hb, hbefore, hafter.tail hstep⟩

theorem acyclic_append (hacyclic : Acyclic (index.Feeds accepted))
    (hapart : ¬ index.BatchMeets accepted batch) :
    Acyclic (index.Feeds (accepted ++ batch)) := by
  intro t hcycle
  rcases chain_cases hcycle with hold | ⟨c, hc, b, hb, hbefore, hafter⟩
  · exact hacyclic t hold
  · -- The cycle runs from the head of `c` to the body of `c`.
    have hreturn := chain_of_head hapart hc (hafter.trans hbefore)
    exact hapart ⟨b, ⟨c, hc, b, hb, ReflTransGen.refl⟩, c, hc, hreturn⟩

theorem not_acyclic_of_meets {c : Nat} (hc : c < index.rules.length)
    (hmeets : index.BatchMeets accepted [c]) :
    ¬ Acyclic (index.Feeds (accepted ++ [c])) := by
  intro hacyclic
  obtain ⟨t, ⟨d, hd, b, hb, hback⟩, e, he, hahead⟩ := hmeets
  rw [List.mem_singleton] at hd he
  subst d e
  have hold : index.Feeds accepted ≤ index.Feeds (accepted ++ [c]) :=
    fun _ _ => Feeds.mono (List.subset_append_left accepted [c])
  have hreturn : ReflTransGen (index.Feeds (accepted ++ [c])) (index.head c) b :=
    ReflTransGen.mono hold _ _ (hahead.trans hback)
  have hstep : index.Feeds (accepted ++ [c]) b (index.head c) :=
    ⟨c, by simp, hc, hb, rfl⟩
  exact hacyclic (index.head c) (TransGen.tail' hreturn hstep)

theorem not_acyclic_mono {more : List Nat} (hsub : accepted ⊆ more)
    (hcycle : ¬ Acyclic (index.Feeds accepted)) : ¬ Acyclic (index.Feeds more) := by
  intro hacyclic
  exact hcycle (hacyclic.mono (fun _ _ => Feeds.mono hsub))

/-! ## Halving -/

/-- What admitting a batch to accepted rules guarantees. -/
structure Admitted (index : ClauseIndex) (accepted batch result : List Nat) : Prop where
  keeps : accepted ⊆ result
  acyclic : Acyclic (index.Feeds result)
  maximal : ∀ c ∈ batch, c ∉ result → ¬ Acyclic (index.Feeds (result ++ [c]))

theorem Admitted.append {left right first second : List Nat}
    (hfirst : index.Admitted accepted left first) (hsecond : index.Admitted first right second) :
    index.Admitted accepted (left ++ right) second where
  keeps := fun _ hc => hsecond.keeps (hfirst.keeps hc)
  acyclic := hsecond.acyclic
  maximal := by
    intro c hc hout
    rcases List.mem_append.mp hc with hleft | hright
    · -- The rejection was made against fewer rules; the cycle is still there.
      have hcycle := hfirst.maximal c hleft (fun hin => hout (hsecond.keeps hin))
      have hsub : first ++ [c] ⊆ second ++ [c] := by
        intro d hd
        rcases List.mem_append.mp hd with hin | hself
        · exact List.mem_append_left _ (hsecond.keeps hin)
        · exact List.mem_append_right _ hself
      exact not_acyclic_mono hsub hcycle
    · exact hsecond.maximal c hright hout

theorem admitBatch_admitted (hindex : index.WellFormed) {fuel : Nat}
    (hbatch : ∀ c ∈ batch, c < index.rules.length) (hfuel : batch.length ≤ fuel)
    (hacyclic : Acyclic (index.Feeds accepted)) :
    index.Admitted accepted batch (index.admitBatch fuel accepted batch) := by
  induction fuel generalizing accepted batch with
  | zero =>
      have hempty : batch = [] := List.length_eq_zero_iff.mp (Nat.le_zero.mp hfuel)
      subst batch
      exact ⟨List.Subset.refl _, hacyclic, by simp⟩
  | succ fuel ih =>
      unfold admitBatch
      split
      next hempty =>
        have hnil : batch = [] := List.isEmpty_iff.mp hempty
        subst batch
        exact ⟨List.Subset.refl _, hacyclic, by simp⟩
      next hnonempty =>
        have hpos : 0 < batch.length := by
          rw [List.isEmpty_iff] at hnonempty
          exact List.length_pos_iff.mpr hnonempty
        split
        next hkept =>
          refine ⟨List.subset_append_left _ _,
            acyclic_append hacyclic ((keepsApart_iff hindex hbatch).mp hkept), ?_⟩
          intro c hc hout
          exact absurd (List.mem_append_right accepted hc) hout
        next hmet =>
          have hmeets : index.BatchMeets accepted batch := by
            by_contra hapart
            exact hmet ((keepsApart_iff hindex hbatch).mpr hapart)
          split
          next hsingle =>
            obtain ⟨c, rfl⟩ := List.length_eq_one_iff.mp hsingle
            refine ⟨List.Subset.refl _, hacyclic, ?_⟩
            intro d hd _
            rw [List.mem_singleton] at hd
            subst d
            exact not_acyclic_of_meets (hbatch c (by simp)) hmeets
          next hseveral =>
            let half := batch.length / 2
            have hleft : index.Admitted accepted (batch.take half)
                (index.admitBatch fuel accepted (batch.take half)) :=
              ih (fun c hc => hbatch c (List.mem_of_mem_take hc))
                (by rw [List.length_take]; omega) hacyclic
            have hright : index.Admitted (index.admitBatch fuel accepted (batch.take half))
                (batch.drop half) (index.admitBatch fuel
                  (index.admitBatch fuel accepted (batch.take half)) (batch.drop half)) :=
              ih (fun c hc => hbatch c (List.mem_of_mem_drop hc))
                (by rw [List.length_drop]; omega) hleft.acyclic
            have hboth := hleft.append hright
            rwa [List.take_append_drop] at hboth

theorem augment_admitted (hindex : index.WellFormed) (hacyclic : Acyclic (index.Feeds accepted)) :
    index.Admitted accepted (List.range index.rules.length) (index.augment accepted) := by
  let candidates := (List.range index.rules.length).filter (fun c => !accepted.contains c)
  have hcandidates : index.Admitted accepted candidates
      (index.admitBatch candidates.length accepted candidates) :=
    admitBatch_admitted hindex (fun c hc => List.mem_range.mp (List.mem_of_mem_filter hc))
      le_rfl hacyclic
  refine ⟨hcandidates.keeps, hcandidates.acyclic, ?_⟩
  intro c hc hout
  apply hcandidates.maximal c _ hout
  have hnew : c ∉ accepted := fun hin => hout (hcandidates.keeps hin)
  simpa [candidates, List.mem_range.mp hc] using hnew

/-! ## Forward rules -/

theorem mem_forwardRules {dates : List Nat} {c : Nat} :
    c ∈ index.forwardRules dates ↔ c < index.rules.length ∧
      ((index.body c).map (fun t => dates.getD t index.size)).foldl max 0 <
        dates.getD (index.head c) index.size := by
  unfold forwardRules
  simp [mem_ruleNumbers_iff]

/-- Forward rules derive later tuples from earlier ones. -/
theorem forwardRules_acyclic (index : ClauseIndex) (dates : List Nat) :
    Acyclic (index.Feeds (index.forwardRules dates)) := by
  apply Acyclic.of_rank (fun t => dates.getD t index.size)
  rintro s t ⟨c, hc, _, hbody, rfl⟩
  have hlater := (mem_forwardRules.mp hc).2
  refine lt_of_le_of_lt ?_ hlater
  exact (foldl_max_le_iff.mp le_rfl).2 _ (List.mem_map.mpr ⟨s, hbody, rfl⟩)

end ClauseIndex

namespace ClausePruner

theorem members_feeds {index : ClauseIndex} {accepted : List Nat} {s t : Nat} :
    index.Feeds (index.members accepted) s t ↔ index.Feeds accepted s t := by
  constructor
  · rintro ⟨c, hc, hrest⟩
    exact ⟨c, (index.mem_members.mp hc).2, hrest⟩
  · rintro ⟨c, hc, hlt, hrest⟩
    exact ⟨c, index.mem_members.mpr ⟨hlt, hc⟩, hlt, hrest⟩

/-- Admitting again tells the same clauses and changes nothing. -/
theorem admitMore_augment {p : ClausePruner} (hp : p.augmented = none) :
    p.augment.admitMore = p.admitMore := by
  have hfirst : p.admitMore = ((p.index.candidates p.forward).filter
      (fun c => (p.index.augment p.forward).contains c),
        { p with augmented := some (p.index.augment p.forward) }) := by
    unfold admitMore
    rw [hp]
  have haugment : p.augment = { p with augmented := some (p.index.augment p.forward) } :=
    congrArg Prod.snd hfirst
  rw [haugment, hfirst]
  unfold admitMore ClauseIndex.candidates
  dsimp only
  rw [List.filter_filter]

/-- What is told are the clauses that have been added. -/
theorem admitMore_added {p : ClausePruner} (hp : p.augmented = none) :
    p.admitMore.1 = p.augment.addedClauses := by
  unfold addedClauses augmentedClauses augment admitMore ClauseIndex.candidates ClauseIndex.members
  rw [hp]
  dsimp only
  rw [Option.getD_some, List.filter_filter, List.filter_filter]
  simp only [Bool.and_comm]

/-- Augmenting keeps every forward clause, closes no cycle, and leaves out only clauses that would
close one.  It tells which clauses it has added; a second time it tells the same and changes
nothing. -/
theorem augment_safe_and_maximal (clauses : List GroundClause) (inputs : List GroundTuple) :
    let before := ofClauses clauses inputs
    let after := before.augment
    (∀ c ∈ before.forwardClauses, c ∈ after.augmentedClauses) ∧
      Acyclic (Feeds clauses after.augmentedClauses) ∧
      (∀ c < clauses.length, c ∉ after.augmentedClauses →
        ¬ Acyclic (Feeds clauses (after.augmentedClauses ++ [c]))) ∧
      (∀ c, c ∈ after.addedClauses ↔
        c ∈ after.augmentedClauses ∧ c ∉ before.forwardClauses) ∧
      before.admitMore = (after.addedClauses, after) ∧
      after.admitMore = (after.addedClauses, after) := by
  intro before after
  have hfirst : before.admitMore = (after.addedClauses, after) :=
    Prod.ext (admitMore_added rfl) rfl
  have hagain : after.admitMore = (after.addedClauses, after) :=
    (admitMore_augment rfl).trans hfirst
  let index := ClauseIndex.ofClauses clauses
  let dates := index.birthDates inputs
  have hadmitted : index.Admitted (index.forwardRules dates) (List.range index.rules.length)
      (index.augment (index.forwardRules dates)) :=
    ClauseIndex.augment_admitted (ClauseIndex.ofClauses_wellFormed clauses)
      (index.forwardRules_acyclic dates)
  have haugmented : after.augmentedClauses =
      index.members (index.augment (index.forwardRules dates)) := rfl
  refine ⟨?_, ?_, ?_, ?_, hfirst, hagain⟩
  · intro c hc
    obtain ⟨hlt, hforward⟩ := index.mem_members.mp hc
    rw [haugmented]
    exact index.mem_members.mpr ⟨hlt, hadmitted.keeps hforward⟩
  · rw [haugmented, ClauseIndex.acyclic_feeds_iff]
    exact hadmitted.acyclic.mono (fun _ _ => members_feeds.mp)
  · intro c hc hout
    rw [haugmented] at hout ⊢
    rw [ClauseIndex.acyclic_feeds_iff]
    have hlt : c < index.rules.length := by
      simpa [index] using hc
    have hnot : c ∉ index.augment (index.forwardRules dates) :=
      fun hin => hout (index.mem_members.mpr ⟨hlt, hin⟩)
    have hcycle := hadmitted.maximal c (List.mem_range.mpr hlt) hnot
    intro hacyclic
    apply hcycle
    apply hacyclic.mono
    rintro s t ⟨d, hd, hdlt, hrest⟩
    refine ⟨d, ?_, hdlt, hrest⟩
    rcases List.mem_append.mp hd with hold | hnew
    · exact List.mem_append_left _ (index.mem_members.mpr ⟨hdlt, hold⟩)
    · exact List.mem_append_right _ hnew
  · intro c
    have hforward : c ∈ before.forwardClauses ↔
        c < index.rules.length ∧ c ∈ index.forwardRules dates := index.mem_members
    have hrules : after.forward = index.forwardRules dates := rfl
    have hadded : c ∈ after.addedClauses ↔
        c ∈ after.augmentedClauses ∧ c ∉ index.forwardRules dates := by
      simp [addedClauses, hrules]
    rw [hadded, hforward]
    constructor
    · rintro ⟨hin, hnot⟩
      exact ⟨hin, fun hboth => hnot hboth.2⟩
    · rintro ⟨hin, hnot⟩
      rw [haugmented, index.mem_members] at hin
      refine ⟨?_, fun hmem => hnot ⟨hin.1, hmem⟩⟩
      rw [haugmented]
      exact index.mem_members.mpr hin

end ClausePruner

end DerivationBelief

import DerivationBelief.Proofs.ContradictionFilter
import Mathlib.Tactic

/-!
# When the filter leaves no contradiction

False observations force the products with a forced node in their body, and the sums of forced
nodes.  The filter finds less than that.  It does not go on from a refuted product to the products
that use it, and it finds a sum only when all of its body are refuted products, so that one product
that is observed false, or one singleton or sum, keeps the sum from being found.  It finds all that
is forced exactly when one more product and one more sum add nothing to what it finds.  On graphs
whose products are over singletons and sums, and whose sums are over products, this is so as long as
no product is observed false.
-/

namespace DerivationBelief

open Filtering

variable {α : Type} {g : CausalGraph α} {batch other : Batch}

/-- The least set of nodes with those observed false, the products with such a node in their body,
and the sums over such nodes alone. -/
inductive CausalGraph.ForcedFalse (g : CausalGraph α) (batch : Batch) : Nat → Prop where
  | observed {node : Nat} (hnode : (node, false) ∈ batch) : ForcedFalse g batch node
  | prod {head node : Nat} {body : List Nat} (hprod : (head, body) ∈ g.prods)
      (hnode : node ∈ body) (hforced : ForcedFalse g batch node) : ForcedFalse g batch head
  | sum {head : Nat} {body : List Nat} (hsum : (head, body) ∈ g.sums) (hsome : body ≠ [])
      (hforced : ∀ node ∈ body, ForcedFalse g batch node) : ForcedFalse g batch head

namespace Filtering

/-- What the filter finds: the nodes observed false, and those that its rules refute. -/
def Found (g : CausalGraph α) (batch : Batch) (node : Nat) : Prop :=
  (node, false) ∈ batch ∨ Refuted g batch node ∨ SumOf g (Refuted g batch) node

/-! ## What is found is forced -/

theorem mem_body_of_users (hsums : (g.sums.map Prod.fst).Nodup) {sum node : Nat} {body : List Nat}
    (hsum : sum ∈ users g.sums node) (hbody : g.sum? sum = some body) : node ∈ body := by
  obtain ⟨used, hused, hnode⟩ := mem_users.mp hsum
  have heq : some used = some body := ((Arrival.get?_eq_some_iff hsums).mpr hused).symm.trans hbody
  exact Option.some.inj heq ▸ hnode

theorem forcedFalse_sum (hsums : (g.sums.map Prod.fst).Nodup) {head sum : Nat} {body : List Nat}
    (hsum : sum ∈ users g.sums head) (hbody : g.sum? sum = some body)
    (hall : ∀ node ∈ body, g.ForcedFalse batch node) : g.ForcedFalse batch sum :=
  .sum (Arrival.mem_of_get? hbody) (List.ne_nil_of_mem (mem_body_of_users hsums hsum hbody)) hall

theorem Refuted.forcedFalse (hsums : (g.sums.map Prod.fst).Nodup) {head : Nat}
    (hhead : Refuted g batch head) : g.ForcedFalse batch head := by
  induction hhead with
  | observed hnode huser =>
      obtain ⟨body, hprod, hmem⟩ := mem_users.mp huser
      exact .prod hprod hmem (.observed hnode)
  | sum _ hsum hbody _ huser _ ihBody =>
      obtain ⟨body, hprod, hmem⟩ := mem_users.mp huser
      exact .prod hprod hmem (forcedFalse_sum hsums hsum hbody ihBody)

theorem Found.forcedFalse (hsums : (g.sums.map Prod.fst).Nodup) {node : Nat}
    (hfound : Found g batch node) : g.ForcedFalse batch node := by
  rcases hfound with hobserved | hrefuted | ⟨head, body, _, hsum, hbody, hall⟩
  · exact .observed hobserved
  · exact hrefuted.forcedFalse hsums
  · exact forcedFalse_sum hsums hsum hbody fun sub hsub => (hall sub hsub).forcedFalse hsums

/-! ## Only the false observations count -/

/-- The two batches observe the same nodes false. -/
def SameFalse (batch other : Batch) : Prop :=
  ∀ node, (node, false) ∈ batch ↔ (node, false) ∈ other

theorem sameFalse_append {more : Batch} (hmore : ∀ entry ∈ more, entry.2 = true) :
    SameFalse (batch ++ more) batch := by
  intro node
  rw [List.mem_append]
  refine ⟨fun hmem => hmem.resolve_right fun hnew => ?_, Or.inl⟩
  simpa using hmore _ hnew

theorem SameFalse.refuted (hsame : SameFalse batch other) {node : Nat}
    (hnode : Refuted g batch node) : Refuted g other node := by
  induction hnode with
  | observed hnode huser => exact .observed ((hsame _).mp hnode) huser
  | sum _ hsum hbody _ huser ihHead ihBody => exact .sum ihHead hsum hbody ihBody huser

theorem SameFalse.found (hsame : SameFalse batch other) {node : Nat}
    (hnode : Found g batch node) : Found g other node := by
  rcases hnode with hobserved | hrefuted | ⟨head, body, hhead, hsum, hbody, hall⟩
  · exact Or.inl ((hsame node).mp hobserved)
  · exact Or.inr (Or.inl (hsame.refuted hrefuted))
  · exact Or.inr (Or.inr ⟨head, body, hsame.refuted hhead, hsum, hbody,
      fun sub hsub => hsame.refuted (hall sub hsub)⟩)

theorem SameFalse.symm (hsame : SameFalse batch other) : SameFalse other batch :=
  fun node => (hsame node).symm

theorem SameFalse.forcedFalse (hsame : SameFalse batch other) {node : Nat}
    (hnode : g.ForcedFalse batch node) : g.ForcedFalse other node := by
  induction hnode with
  | observed hnode => exact .observed ((hsame _).mp hnode)
  | prod hprod hnode _ ih => exact .prod hprod hnode ih
  | sum hsum hsome _ ih => exact .sum hsum hsome ih

end Filtering

namespace CausalGraph

/-- One more product and one more sum add nothing to what the filter finds. -/
structure Traced (g : CausalGraph α) (batch : Batch) : Prop where
  prods : ∀ d ∈ g.prods, ∀ node ∈ d.2, Refuted g batch node → Found g batch d.1
  sums : ∀ d ∈ g.sums, d.2 ≠ [] → (∀ node ∈ d.2, Found g batch node) → Found g batch d.1

theorem Traced.found (htraced : g.Traced batch) {node : Nat}
    (hforced : g.ForcedFalse batch node) : Found g batch node := by
  induction hforced with
  | observed hnode => exact Or.inl hnode
  | @prod head node body hprod hnode _ ih =>
      have huser : head ∈ users g.prods node := mem_users.mpr ⟨body, hprod, hnode⟩
      rcases ih with hobserved | hrefuted | ⟨first, sub, hfirst, hsum, hbody, hall⟩
      · exact Or.inr (Or.inl (.observed hobserved huser))
      · exact htraced.prods _ hprod node hnode hrefuted
      · exact Or.inr (Or.inl (.sum hfirst hsum hbody hall huser))
  | sum hsum hsome _ ih => exact htraced.sums _ hsum hsome ih

/-- Products are over singletons and sums, and sums are over products. -/
structure Alternates (g : CausalGraph α) : Prop where
  prods : ∀ d ∈ g.prods, ∀ node ∈ d.2, node ∉ g.prods.map Prod.fst
  sums : ∀ d ∈ g.sums, ∀ node ∈ d.2, node ∈ g.prods.map Prod.fst
  apart : ∀ node ∈ g.prods.map Prod.fst, node ∉ g.sums.map Prod.fst

theorem mem_prods_of_refuted {node : Nat} (hnode : Refuted g batch node) :
    node ∈ g.prods.map Prod.fst := by
  have huser : ∃ sub, node ∈ users g.prods sub := by
    cases hnode with
    | observed _ huser => exact ⟨_, huser⟩
    | sum _ _ _ _ huser => exact ⟨_, huser⟩
  obtain ⟨sub, huser⟩ := huser
  obtain ⟨body, hprod, _⟩ := mem_users.mp huser
  exact List.mem_map.mpr ⟨_, hprod, rfl⟩

/-- On an alternating graph the filter misses nothing as long as no product is observed false. -/
theorem Alternates.traced (halternates : g.Alternates) (hsums : (g.sums.map Prod.fst).Nodup)
    (hbatch : ∀ node, (node, false) ∈ batch → node ∉ g.prods.map Prod.fst) : g.Traced batch := by
  constructor
  case prods =>
    intro d hd node hnode hrefuted
    exact absurd (mem_prods_of_refuted hrefuted) (halternates.prods d hd node hnode)
  case sums =>
    intro d hd hsome hfound
    have hrefuted : ∀ node ∈ d.2, Refuted g batch node := by
      intro node hnode
      have hprod := halternates.sums d hd node hnode
      rcases hfound node hnode with hobserved | hrefuted | ⟨first, body, _, hsum, _⟩
      · exact absurd hprod (hbatch node hobserved)
      · exact hrefuted
      · obtain ⟨used, hused, _⟩ := mem_users.mp hsum
        exact absurd (List.mem_map.mpr ⟨_, hused, rfl⟩) (halternates.apart node hprod)
    obtain ⟨first, hfirst⟩ := List.exists_mem_of_ne_nil d.2 hsome
    have huser : d.1 ∈ users g.sums first := mem_users.mpr ⟨d.2, hd, hfirst⟩
    have hbody : g.sum? d.1 = some d.2 := (Arrival.get?_eq_some_iff hsums).mpr hd
    exact Or.inr (Or.inr ⟨first, d.2, hrefuted first hfirst, huser, hbody, hrefuted⟩)

/-- However many true observations come with a batch, none of them is left on a node that is forced
to be false, if and only if one more product and one more sum add nothing to what the filter
finds. -/
theorem contradictions_gone_iff (hsums : (g.sums.map Prod.fst).Nodup)
    (hnodes : (batch.map Prod.fst).Nodup) :
    (∀ more : Batch, ((batch ++ more).map Prod.fst).Nodup → (∀ entry ∈ more, entry.2 = true) →
      ∀ node, g.ForcedFalse (batch ++ more) node →
        (node, true) ∉ g.dropContradictions (batch ++ more)) ↔ g.Traced batch := by
  constructor
  · intro hgone
    -- A forced node that is not observed may be observed true.
    have hfound : ∀ node, g.ForcedFalse batch node → Found g batch node := by
      intro node hforced
      by_cases hfalse : (node, false) ∈ batch
      · exact Or.inl hfalse
      · obtain ⟨more, hmore, hdistinct, hmem⟩ : ∃ more : Batch, (∀ entry ∈ more, entry.2 = true) ∧
            ((batch ++ more).map Prod.fst).Nodup ∧ (node, true) ∈ batch ++ more := by
          by_cases htrue : (node, true) ∈ batch
          · exact ⟨[], by simp, by simpa using hnodes, by simpa using htrue⟩
          · have hnew : node ∉ batch.map Prod.fst := by
              rw [List.mem_map]
              rintro ⟨⟨_, value⟩, hentry, rfl⟩
              cases value <;> contradiction
            refine ⟨[(node, true)], by simp, ?_, by simp⟩
            rw [List.map_append]
            exact hnodes.append (by simp) (by simpa using hnew)
        have hsame : SameFalse (batch ++ more) batch := sameFalse_append hmore
        have hdropped := hgone more hdistinct hmore node (hsame.symm.forcedFalse hforced)
        have hrefuted := ((notMem_dropContradictions_iff g hdistinct hmem).mp hdropped).2
        exact hsame.found (Or.inr hrefuted)
    constructor
    case prods =>
      intro d hd node hnode hrefuted
      exact hfound d.1 (.prod hd hnode (hrefuted.forcedFalse hsums))
    case sums =>
      intro d hd hsome hall
      exact hfound d.1 (.sum hd hsome fun node hnode => (hall node hnode).forcedFalse hsums)
  · intro htraced more hdistinct hmore node hforced hkept
    have hsame : SameFalse (batch ++ more) batch := sameFalse_append hmore
    have hfound : Found g (batch ++ more) node :=
      hsame.symm.found (htraced.found (hsame.forcedFalse hforced))
    have hmem : (node, true) ∈ batch ++ more :=
      (dropContradictions_sublist g hdistinct).subset hkept
    rcases hfound with hobserved | hrefuted
    · have heq := List.inj_on_of_nodup_map hdistinct hobserved hmem rfl
      simp at heq
    · exact (notMem_dropContradictions_iff g hdistinct hmem).mpr ⟨rfl, hrefuted⟩ hkept

theorem smokeAlarm_alternates : smokeAlarm.Alternates := by
  constructor <;> simp [smokeAlarm]

theorem smokeAlarm_ring_forced {batch : Batch} (hring : smokeAlarm.ForcedFalse batch 1) :
    smokeAlarm.ForcedFalse batch 2 := by
  have hheard : (2, [1]) ∈ smokeAlarm.sums := by decide
  exact .sum hheard (by decide) (by simpa using hring)

/-- Without smoke nobody has heard the alarm, whether or not it is observed to ring. -/
theorem smokeAlarm_gone :
    (smokeAlarm.sums.map Prod.fst).Nodup ∧ (([(0, false)] : Batch).map Prod.fst).Nodup ∧
      smokeAlarm.Traced [(0, false)] ∧ smokeAlarm.ForcedFalse [(0, false), (2, true)] 2 ∧
      (2, true) ∉ smokeAlarm.dropContradictions [(0, false), (2, true)] := by
  have hsums : (smokeAlarm.sums.map Prod.fst).Nodup := by decide
  have hnodes : (([(0, false)] : Batch).map Prod.fst).Nodup := by decide
  have htraced : smokeAlarm.Traced [(0, false)] :=
    smokeAlarm_alternates.traced hsums (by simp [smokeAlarm])
  have hring : (1, [0]) ∈ smokeAlarm.prods := by decide
  have hsmoke : smokeAlarm.ForcedFalse [(0, false), (2, true)] 0 := .observed (by decide)
  have hforced : smokeAlarm.ForcedFalse [(0, false), (2, true)] 2 :=
    smokeAlarm_ring_forced (.prod hring (List.mem_singleton_self 0) hsmoke)
  have hgone := (contradictions_gone_iff hsums hnodes).mpr htraced [(2, true)] (by decide)
    (by decide) 2 hforced
  exact ⟨hsums, hnodes, htraced, hforced, hgone⟩

/-- Nobody can have heard an alarm that is observed not to ring, yet that observation is kept. -/
theorem smokeAlarm_silent :
    smokeAlarm.ForcedFalse [(1, false), (2, true)] 2 ∧
      (2, true) ∈ smokeAlarm.dropContradictions [(1, false), (2, true)] :=
  ⟨smokeAlarm_ring_forced (.observed (by decide)), by decide⟩

end CausalGraph

end DerivationBelief

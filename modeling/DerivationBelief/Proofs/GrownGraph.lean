import DerivationBelief.Proofs.GraphEdits
import DerivationBelief.Proofs.GrownFamilies
import Mathlib.Tactic

/-!
# The grown graph

The products of the graph use the latest replicas of their bodies, and behind everything that the
graph has stand the sums and products of the families with their priors.  Nothing is refused on the
way: references are to nodes that have been added, no node derives itself, and no key is met twice.
-/

namespace DerivationBelief

/-! ## Distributions at one value -/

namespace Distribution

variable {α : Type} [Scalar α]

/-- All of the mass at one value. -/
def atOne (value : α) : Distribution α :=
  ⟨[value], [1 / Scalar.sum [1]]⟩

end Distribution

/-- What is asked of numbers.  One is a proper weight.  Only numbers compare, and those in one order;
the least share and what it leaves of one lie in the unit interval.  Counts of 32 bits have a number
as their quotient. -/
structure CountsInUnit (α : Type) [Scalar α] : Prop where
  one_positive : Scalar.isPositive (Scalar.sum [(1 : α)]) = true
  one_weighs : Scalar.less (1 : α) 0 = false
  one_finite : Scalar.isFinite (1 : α) = true
  compared : ∀ x y : α, Scalar.atMost x y = true →
    Scalar.atMost x x = true ∧ Scalar.atMost y y = true
  atMost_trans : ∀ x y z : α, Scalar.atMost x y = true → Scalar.atMost y z = true →
    Scalar.atMost x z = true
  atMost_of_not_less : ∀ x y : α, Scalar.atMost x x = true → Scalar.atMost y y = true →
    Scalar.less x y = false → Scalar.atMost y x = true
  epsilon_low : Scalar.atMost (0 : α) Distribution.epsilon = true
  epsilon_le : Scalar.atMost (Distribution.epsilon : α) (1 - Distribution.epsilon) = true
  epsilon_high : Scalar.atMost (1 - Distribution.epsilon : α) 1 = true
  quotient : ∀ part total : Nat, part ≤ total → 0 < total → total < Text.word32 →
    Scalar.atMost (Scalar.ofCount part / Scalar.ofCount total : α)
      (Scalar.ofCount part / Scalar.ofCount total) = true

namespace CountsInUnit

variable {α : Type} [Scalar α] (hα : CountsInUnit α)
include hα

theorem inUnit_clamp {x : α} (hx : Scalar.atMost x x = true) :
    Scalar.inUnit (Scalar.clamp Distribution.epsilon (1 - Distribution.epsilon) x) = true := by
  obtain ⟨hlow, hhigh⟩ := hα.compared _ _ hα.epsilon_le
  have hunit : ∀ y : α, Scalar.atMost Distribution.epsilon y = true →
      Scalar.atMost y (1 - Distribution.epsilon) = true → Scalar.inUnit y = true := by
    intro y hbelow habove
    unfold Scalar.inUnit
    rw [Bool.and_eq_true]
    exact ⟨hα.atMost_trans _ _ _ hα.epsilon_low hbelow,
      hα.atMost_trans _ _ _ habove hα.epsilon_high⟩
  unfold Scalar.clamp
  split
  · exact hunit _ hlow hα.epsilon_le
  next hnotLow =>
    have hbelow := hα.atMost_of_not_less _ _ hx hlow (eq_false_of_ne_true hnotLow)
    split
    · exact hunit _ hα.epsilon_le hhigh
    next hnotHigh =>
      exact hunit x hbelow (hα.atMost_of_not_less _ _ hhigh hx (eq_false_of_ne_true hnotHigh))

theorem share_inUnit {count : ObservationCount} (hpositive : 0 < count.total)
    (hle : count.trues ≤ count.total) (hlt : count.total < Text.word32) :
    Scalar.inUnit (count.share : α) = true :=
  hα.inUnit_clamp (hα.quotient _ _ hle hpositive hlt)

theorem pointMass {value : α} (hvalue : Scalar.inUnit value = true) :
    Distribution.pointMass value = .ok (Distribution.atOne value) := by
  have hmerged : Distribution.mergeEqual [(value, (1 : α))] = [(value, 1)] := rfl
  have hmass : Distribution.normalise [(1 : α)] = .ok [1 / Scalar.sum [1]] := by
    simp [Distribution.normalise, hα.one_positive, hα.one_weighs, hα.one_finite]
  simp [Distribution.pointMass, Distribution.ofValues, Distribution.withWeights, hvalue, hmerged,
    hmass, Distribution.atOne]

end CountsInUnit

/-! ## Edits that are not refused -/

namespace Arrival

variable {κ β : Type} [DecidableEq κ]

/-- A key that is present keeps its place. -/
theorem put_of_split {front back : List (κ × β)} {key : κ} (hkey : key ∉ front.map Prod.fst)
    (old value : β) :
    put (front ++ (key, old) :: back) key value = front ++ (key, value) :: back := by
  induction front with
  | nil => simp [put]
  | cons entry front ih =>
      rw [List.map_cons, List.mem_cons, not_or] at hkey
      simp [put, Ne.symm hkey.1, ih hkey.2]

end Arrival

namespace CausalGraph

variable {α : Type} {g : CausalGraph α} {head id : Nat} {body : List Nat}

theorem checkBody_of_bodyOver (hhead : head < g.nodeCount)
    (hbody : BodyOver g.nodeCount head body) : g.checkBody head body = .ok body := by
  unfold checkBody
  rw [if_neg (Nat.not_le.mpr hhead)]
  have hinserted : body.foldl Arrival.insert [] = body := Arrival.distinct_of_nodup hbody.nodup
  rw [foldlM_eq_ok Arrival.insert _ [], hinserted]
  intro found sub hsub
  have hne : sub ≠ head := fun heq => hbody.no_self (heq ▸ hsub)
  rw [if_neg (Nat.not_le.mpr (hbody.lt sub hsub)), if_neg hne]

theorem setProd_of_bodyOver (hhead : head < g.nodeCount) (hbody : BodyOver g.nodeCount head body) :
    g.setProd head body = .ok { g with prods := Arrival.put g.prods head body } := by
  unfold setProd
  rw [checkBody_of_bodyOver hhead hbody]
  rfl

theorem setProd_of_new (hhead : head < g.nodeCount) (hbody : BodyOver g.nodeCount head body)
    (hnew : head ∉ g.prods.map Prod.fst) :
    g.setProd head body = .ok { g with prods := g.prods ++ [(head, body)] } := by
  rw [setProd_of_bodyOver hhead hbody, Arrival.put_of_new hnew]

theorem setSum_of_new (hhead : head < g.nodeCount) (hbody : BodyOver g.nodeCount head body)
    (hnew : head ∉ g.sums.map Prod.fst) :
    g.setSum head body = .ok { g with sums := g.sums ++ [(head, body)] } := by
  unfold setSum
  rw [checkBody_of_bodyOver hhead hbody, ← Arrival.put_of_new hnew]
  rfl

theorem setPrior_of_new {node : String} (hid : g.nodeId? node = some id)
    (hnew : id ∉ g.stochastic.map Prod.fst) (d : Distribution α) :
    (g.setPrior node d).1 = { g with
      dists := g.dists ++ [d]
      stochastic := g.stochastic ++ [(id, g.distCount)] } := by
  unfold setPrior
  rw [hid]
  dsimp only
  rw [Arrival.put_of_new hnew]

theorem BodyOver.singleton {count sub : Nat} (hsub : sub < count) (hne : head ≠ sub) :
    BodyOver count head [sub] where
  nodup := List.nodup_singleton sub
  lt := by simpa using hsub
  no_self := by simpa using hne

end CausalGraph

namespace DifferentiatingLearner

variable {α : Type} [Scalar α] {l : DifferentiatingLearner α} {start g : CausalGraph α}
  {seen rest : List Sighting} {s : Sighting}

/-! ## Products that use latest replicas -/

/-- A body with the latest replicas of its nodes. -/
def redirect (first : Nat) (seen : List Sighting) (d : Nat × List Nat) : Nat × List Nat :=
  (d.1, d.2.map (latestReplica first seen))

theorem redirect_bodyOver {first : Nat} {d : Nat × List Nat} (hd : d.1 < first)
    (hbody : CausalGraph.BodyOver first d.1 d.2) (seen : List Sighting) :
    CausalGraph.BodyOver (first + 4 * seen.length) d.1 (redirect first seen d).2 where
  nodup := List.Nodup.map_on
    (fun _ hx _ hy heq => latestReplica_inj (hbody.lt _ hx) (hbody.lt _ hy) heq) hbody.nodup
  lt := by
    intro sub hsub
    obtain ⟨node, hnode, rfl⟩ := List.mem_map.mp hsub
    exact (latestReplica_lt (hbody.lt node hnode) seen).1
  no_self := by
    intro hself
    obtain ⟨node, hnode, heq⟩ := List.mem_map.mp hself
    rcases (latestReplica_lt (hbody.lt node hnode) seen).2 with hsame | hlater
    · exact hbody.no_self ((hsame.symm.trans heq) ▸ hnode)
    · omega

omit [Scalar α] in
/-- A product in front of which all have been rewired gets the latest replicas in its place. -/
theorem rewire_split {latest : List (Nat × Nat)} {redirected : Nat → Nat}
    (hlatest : ∀ node, (Arrival.get? latest node).getD node = redirected node)
    {front back : List (Nat × List Nat)} {d : Nat × List Nat}
    (hprods : g.prods = front ++ d :: back)
    (hfront : d.1 ∉ front.map Prod.fst) (hhead : d.1 < g.nodeCount)
    (hbody : CausalGraph.BodyOver g.nodeCount d.1 (d.2.map redirected)) :
    rewire latest g d =
      .ok { g with prods := front ++ (d.1, d.2.map redirected) :: back } := by
  unfold rewire
  simp only [hlatest]
  split
  next hany =>
    rw [CausalGraph.setProd_of_bodyOver hhead hbody, hprods]
    rw [show d = (d.1, d.2) from rfl, Arrival.put_of_split hfront]
    rfl
  next hnone =>
    have hself : ∀ sub ∈ d.2, redirected sub = id sub := by
      intro sub hsub
      have hkey : Arrival.get? latest sub = none := by
        simp only [List.any_eq_true, not_exists, not_and] at hnone
        simpa [Arrival.hasKey] using hnone sub hsub
      rw [← hlatest sub, hkey]
      rfl
    rw [List.map_congr_left hself, List.map_id, ← hprods]

omit [Scalar α] in
theorem rewire_all {first : Nat} {latest : List (Nat × Nat)}
    (hlatest : ∀ node, (Arrival.get? latest node).getD node = latestReplica first seen node)
    (hcount : g.nodeCount = first + 4 * seen.length) {front back : List (Nat × List Nat)}
    (hover : CausalGraph.DerivationsOver first (front ++ back))
    (hprods : g.prods = front.map (redirect first seen) ++ back) :
    back.foldlM (rewire latest) g =
      .ok { g with prods := (front ++ back).map (redirect first seen) } := by
  induction back generalizing g front with
  | nil =>
      rw [List.append_nil] at hprods ⊢
      rw [← hprods]
      rfl
  | cons d back ih =>
      have hd : d ∈ front ++ d :: back := by simp
      have hhead : d.1 < first := hover.head_lt d hd
      have hfront : d.1 ∉ (front.map (redirect first seen)).map Prod.fst := by
        have hnodup := hover.heads_nodup
        rw [List.map_append, List.map_cons, List.nodup_middle, List.nodup_cons] at hnodup
        rw [List.map_map]
        exact fun hmem => hnodup.1 (List.mem_append_left _ hmem)
      have hbody := redirect_bodyOver hhead (hover.body d hd) seen
      rw [← hcount] at hbody
      have hstep := rewire_split hlatest hprods hfront (by omega) hbody
      rw [List.append_cons] at hover ⊢
      rw [List.foldlM_cons, hstep]
      have hrest := ih (g := { g with
        prods := front.map (redirect first seen) ++ redirect first seen d :: back })
        hcount hover (by simp)
      exact hrest

/-! ## Connected families -/

def familySums (f : ReplicaFamily α) : List (Nat × List Nat) :=
  [(f.replica, [f.derivation]), (f.observed, [f.clause])]

def familyProds (f : ReplicaFamily α) : List (Nat × List Nat) :=
  [(f.derivation, [f.previous]), (f.clause, [f.previous])]

/-- Everything that the graph derives or gives a prior stands below a place. -/
structure Below (place : Nat) (g : CausalGraph α) : Prop where
  sums : ∀ d ∈ g.sums, d.1 < place
  prods : ∀ d ∈ g.prods, d.1 < place
  stochastic : ∀ entry ∈ g.stochastic, entry.1 < place

/-- Half of a family: a product of the previous replica with a prior, and the sum of it. -/
def attach (g : CausalGraph α) (prod sum previous : Nat) (name : String) (value : α) :
    Except (LearnerFault α) (CausalGraph α) := do
  let g ← (g.setProd prod [previous]).mapError .graph
  let d ← (Distribution.pointMass value).mapError .distribution
  ((g.setPrior name d).1.setSum sum [prod]).mapError .graph

def attached (g : CausalGraph α) (prod sum previous : Nat) (value : α) : CausalGraph α :=
  { g with
    sums := g.sums ++ [(sum, [prod])]
    prods := g.prods ++ [(prod, [previous])]
    dists := g.dists ++ [.atOne value]
    stochastic := g.stochastic ++ [(prod, g.distCount)] }

theorem notMem_keys_of_lt {β : Type} {entries : List (Nat × β)} {id : Nat}
    (hentries : ∀ entry ∈ entries, entry.1 < id) : id ∉ entries.map Prod.fst := by
  intro hmem
  obtain ⟨entry, hentry, heq⟩ := List.mem_map.mp hmem
  exact (hentries entry hentry).ne heq

variable {first prod sum previous : Nat} {name : String} {value : α}

theorem attach_of_below (hα : CountsInUnit α) (hbelow : Below prod g)
    (hvalue : Scalar.inUnit value = true) (hname : g.nodeId? name = some prod)
    (hprevious : previous < prod) (hsum : prod < sum) (hroom : sum < g.nodeCount) :
    attach g prod sum previous name value = .ok (attached g prod sum previous value) := by
  have hprod : prod < g.nodeCount := hsum.trans hroom
  let derived : CausalGraph α := { g with prods := g.prods ++ [(prod, [previous])] }
  have hderived : g.setProd prod [previous] = .ok derived :=
    CausalGraph.setProd_of_new hprod (.singleton (hprevious.trans hprod) hprevious.ne')
      (notMem_keys_of_lt hbelow.prods)
  let weighted : CausalGraph α := { derived with
    dists := g.dists ++ [.atOne value]
    stochastic := g.stochastic ++ [(prod, g.distCount)] }
  have hweighted : (derived.setPrior name (.atOne value)).1 = weighted :=
    CausalGraph.setPrior_of_new (g := derived) hname (notMem_keys_of_lt hbelow.stochastic) _
  have hsummed : weighted.setSum sum [prod] = .ok (attached g prod sum previous value) :=
    CausalGraph.setSum_of_new (g := weighted) hroom (.singleton hprod hsum.ne')
      (notMem_keys_of_lt fun d hd => (hbelow.sums d hd).trans hsum)
  unfold attach
  rw [hderived, hα.pointMass hvalue]
  change ((derived.setPrior name (.atOne value)).1.setSum sum [prod]).mapError _ = _
  rw [hweighted, hsummed]
  rfl

theorem Below.attached (hbelow : Below prod g) (hsum : prod < sum) (previous : Nat) (value : α) :
    Below (sum + 1) (attached g prod sum previous value) where
  sums := by
    unfold DifferentiatingLearner.attached
    rw [List.forall_mem_append, List.forall_mem_singleton]
    exact ⟨fun d hd => (hbelow.sums d hd).trans (by omega), Nat.lt_succ_self sum⟩
  prods := by
    unfold DifferentiatingLearner.attached
    rw [List.forall_mem_append, List.forall_mem_singleton]
    exact ⟨fun d hd => (hbelow.prods d hd).trans (by omega), by omega⟩
  stochastic := by
    unfold DifferentiatingLearner.attached
    rw [List.forall_mem_append, List.forall_mem_singleton]
    exact ⟨fun d hd => (hbelow.stochastic d hd).trans (by omega), by omega⟩

/-- A graph with a family connected. -/
def connected (rule : α) (g : CausalGraph α) (f : ReplicaFamily α) : CausalGraph α :=
  attached (attached g f.derivation f.replica f.previous rule) f.clause f.observed f.previous
    f.frequency

/-- The graph that is connected with some families. -/
structure ConnectedTo (g : CausalGraph α) (families : List (ReplicaFamily α))
    (last : CausalGraph α) : Prop where
  name_eq : last.name = g.name
  nodes_eq : last.nodes = g.nodes
  singletons_eq : last.singletons = g.singletons
  sums_eq : last.sums = g.sums ++ families.flatMap familySums
  prods_eq : last.prods = g.prods ++ families.flatMap familyProds

theorem connectedTo_foldl (rule : α) (g : CausalGraph α) (families : List (ReplicaFamily α)) :
    ConnectedTo g families (families.foldl (connected rule) g) := by
  induction families generalizing g with
  | nil =>
      constructor
      case name_eq => rfl
      case nodes_eq => rfl
      case singletons_eq => rfl
      case sums_eq => simp
      case prods_eq => simp
  | cons f families ih =>
      have hrest := ih (connected rule g f)
      constructor
      case name_eq => exact hrest.name_eq
      case nodes_eq => exact hrest.nodes_eq
      case singletons_eq => exact hrest.singletons_eq
      case sums_eq =>
        rw [List.foldl_cons, hrest.sums_eq]
        simp [connected, attached, familySums]
      case prods_eq =>
        rw [List.foldl_cons, hrest.prods_eq]
        simp [connected, attached, familyProds]

theorem Below.connected (hbelow : Below (first + 4 * seen.length) g) (rule : α)
    (nodes : List String) (s : Sighting) :
    Below (first + 4 * (seen ++ [s]).length)
      (connected rule g (plannedFamily nodes first seen s)) := by
  let f : ReplicaFamily α := plannedFamily nodes first seen s
  have hstart : Below f.derivation g := hbelow
  have hhalf : Below f.clause _ := hstart.attached (Nat.lt_succ_self _) f.previous rule
  rw [List.length_append, List.length_singleton, Nat.mul_add]
  exact hhalf.attached (Nat.lt_succ_self f.clause) f.previous f.frequency

theorem below_foldl (hbelow : Below first g) (rule : α) (nodes : List String)
    (seen : List Sighting) :
    Below (first + 4 * seen.length)
      ((plannedFamilies nodes first seen).foldl (connected rule) g) := by
  induction seen using List.reverseRecOn with
  | nil => exact hbelow
  | append_singleton seen s ih =>
      rw [plannedFamilies_append, List.foldl_append]
      exact ih.connected rule nodes s

theorem connect_planned (hα : CountsInUnit α) {nodes : List String}
    (hrule : Scalar.inUnit l.context.ruleProbability = true)
    (hshare : Scalar.inUnit (s.count.share : α) = true) (hnode : s.node < first)
    (hroom : first + 4 * seen.length + 3 < g.nodeCount)
    (hbelow : Below (first + 4 * seen.length) g)
    (hderivation : g.nodeId? (addedName "D" s.round (nodes.getD s.node "")) =
      some (first + 4 * seen.length))
    (hclause : g.nodeId? (addedName "OCls" s.round (nodes.getD s.node "")) =
      some (first + 4 * seen.length + 2)) :
    l.connect g (plannedFamily nodes first seen s) =
      .ok (connected l.context.ruleProbability g (plannedFamily nodes first seen s)) := by
  let f : ReplicaFamily α := plannedFamily nodes first seen s
  have hprevious : f.previous < f.derivation := (latestReplica_lt hnode seen).1
  have hreplica : f.replica < g.nodeCount := by
    change first + 4 * seen.length + 1 < g.nodeCount
    omega
  have hhalf := attach_of_below hα hbelow hrule hderivation hprevious
    (Nat.lt_succ_self f.derivation) hreplica
  have hbetween : Below f.clause _ :=
    hbelow.attached (Nat.lt_succ_self f.derivation) f.previous l.context.ruleProbability
  have hlast := attach_of_below hα hbetween hshare hclause
    (hprevious.trans (Nat.lt_add_of_pos_right Nat.two_pos)) (Nat.lt_succ_self f.clause) hroom
  have hhalves : l.connect g f =
      (attach g f.derivation f.replica f.previous f.derivationName l.context.ruleProbability >>=
        fun g => attach g f.clause f.observed f.previous f.clauseName f.frequency) := by
    unfold connect attach
    simp only [bind_assoc]
  exact hhalves.trans (bind_eq_ok_iff.mpr ⟨_, hhalf, hlast⟩)

/-- The place of an added name, which no other node has. -/
theorem position?_familyNames {nodes : List String} (hseen : Sighted nodes (seen ++ s :: rest))
    {place : Nat} {added : String} (hadded : (familyNames nodes s)[place]? = some added) :
    Arrival.position? (nodes ++ (seen ++ s :: rest).flatMap (familyNames nodes)) added =
      some (nodes.length + 4 * seen.length + place) := by
  have hlength := length_flatMap_familyNames nodes seen
  have hall : nodes ++ (seen ++ s :: rest).flatMap (familyNames nodes) =
      (nodes ++ seen.flatMap (familyNames nodes)) ++
        (familyNames nodes s ++ rest.flatMap (familyNames nodes)) := by
    simp
  have hnodup := hseen.names_nodup
  rw [hall] at hnodup ⊢
  have hfront : (nodes ++ seen.flatMap (familyNames nodes)).length =
      nodes.length + 4 * seen.length := by
    rw [List.length_append, hlength]
  have hget : ((nodes ++ seen.flatMap (familyNames nodes)) ++
      (familyNames nodes s ++ rest.flatMap (familyNames nodes)))[
        nodes.length + 4 * seen.length + place]? = some added := by
    rw [← hfront, List.getElem?_append_right (Nat.le_add_right _ _), Nat.add_sub_cancel_left,
      List.getElem?_append_left (List.getElem?_eq_some_iff.mp hadded).1, hadded]
  obtain ⟨hlt, heq⟩ := List.getElem?_eq_some_iff.mp hget
  rw [Arrival.position?_eq_some_iff, ← heq]
  exact ⟨List.getElem_mem hlt, (hnodup.idxOf_getElem _ hlt).symm⟩

theorem foldlM_connect (hα : CountsInUnit α) {nodes : List String}
    (hrule : Scalar.inUnit l.context.ruleProbability = true)
    (hshares : ∀ s ∈ seen, Scalar.inUnit (s.count.share : α) = true)
    (hseen : Sighted nodes (seen ++ rest)) (hbelow : Below nodes.length g)
    (hnodes : g.nodes = nodes ++ (seen ++ rest).flatMap (familyNames nodes)) :
    (plannedFamilies nodes nodes.length seen).foldlM l.connect g =
      .ok ((plannedFamilies nodes nodes.length seen).foldl
        (connected l.context.ruleProbability) g) := by
  induction seen using List.reverseRecOn generalizing rest with
  | nil => rfl
  | append_singleton seen s ih =>
      rw [List.append_assoc, List.singleton_append] at hseen hnodes
      rw [List.forall_mem_append, List.forall_mem_singleton] at hshares
      have hrun := ih hshares.1 hseen hnodes
      have hconnected := below_foldl hbelow l.context.ruleProbability nodes seen
      set before := (plannedFamilies nodes nodes.length seen).foldl
        (connected l.context.ruleProbability) g
      have hbefore : before.nodes = nodes ++ (seen ++ s :: rest).flatMap (familyNames nodes) := by
        rw [← hnodes]
        exact (connectedTo_foldl _ _ _).nodes_eq
      have hroom : nodes.length + 4 * seen.length + 3 < before.nodeCount := by
        unfold CausalGraph.nodeCount
        rw [hbefore, List.length_append, length_flatMap_familyNames, List.length_append,
          List.length_cons]
        omega
      have hplaces : ∀ (place : Nat) (added : String),
          (familyNames nodes s)[place]? = some added →
            before.nodeId? added = some (nodes.length + 4 * seen.length + place) := by
        intro place added hadded
        unfold CausalGraph.nodeId? CausalGraph.nodeIn?
        rw [hbefore]
        exact position?_familyNames hseen hadded
      have hstep := connect_planned hα hrule hshares.2 (hseen.node_lt s (by simp)) hroom
        hconnected (hplaces 0 _ rfl) (hplaces 2 _ rfl)
      rw [plannedFamilies_append, List.foldlM_append, hrun, List.foldl_append]
      exact bind_eq_ok_iff.mpr ⟨_, rfl, bind_eq_ok_iff.mpr ⟨_, hstep, rfl⟩⟩

end DifferentiatingLearner

end DerivationBelief

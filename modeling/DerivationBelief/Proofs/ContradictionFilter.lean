import DerivationBelief.ContradictionFilter
import DerivationBelief.Proofs.ArrivalOrder
import Mathlib.Tactic

/-!
# The filter drops what false observations refute

A false node refutes the products that use it, and a sum all of whose body are refuted products is
false in turn.  The filter goes through the false nodes in rounds.  A round that finds another false
sum has refuted another product, so the rounds come to an end, and what they have found is what the
rules refute.  A refuted node is false in every assignment of truth that respects the derivations
and the false observations, so only impossible observations are dropped.
-/

namespace DerivationBelief

variable {α : Type} {g : CausalGraph α} {batch : Batch}

/-! ## Assignments of truth -/

/-- A true product has all of its body true, a true sum has some of it true. -/
structure CausalGraph.Respects (g : CausalGraph α) (truth : Nat → Bool) : Prop where
  prods : ∀ d ∈ g.prods, truth d.1 = true → ∀ node ∈ d.2, truth node = true
  sums : ∀ d ∈ g.sums, truth d.1 = true → ∃ node ∈ d.2, truth node = true

/-- The node is false whenever the derivations are respected and what is observed false is so. -/
def CausalGraph.Impossible (g : CausalGraph α) (batch : Batch) (node : Nat) : Prop :=
  ∀ truth : Nat → Bool, g.Respects truth →
    (∀ observed, (observed, false) ∈ batch → truth observed = false) → truth node = false

namespace Filtering

/-! ## What is refuted -/

/-- A sum with a product of some kind in its body, all of whose body are such products. -/
def SumOf (g : CausalGraph α) (refuted : Nat → Prop) (sum : Nat) : Prop :=
  ∃ head body, refuted head ∧ sum ∈ users g.sums head ∧ g.sum? sum = some body ∧
    ∀ node ∈ body, refuted node

/-- Products that use a node observed false, or a sum of refuted products. -/
inductive Refuted (g : CausalGraph α) (batch : Batch) : Nat → Prop where
  | observed {node user : Nat} (hnode : (node, false) ∈ batch)
      (huser : user ∈ users g.prods node) : Refuted g batch user
  | sum {head sum user : Nat} {body : List Nat} (hhead : Refuted g batch head)
      (hsum : sum ∈ users g.sums head) (hbody : g.sum? sum = some body)
      (hall : ∀ node ∈ body, Refuted g batch node) (huser : user ∈ users g.prods sum) :
      Refuted g batch user

theorem mem_users {derivations : List (Nat × List Nat)} {node user : Nat} :
    user ∈ users derivations node ↔ ∃ body, (user, body) ∈ derivations ∧ node ∈ body := by
  simp [users]

theorem mem_users_of_sum? {sum node : Nat} {body : List Nat} (hbody : g.sum? sum = some body)
    (hnode : node ∈ body) : sum ∈ users g.sums node :=
  mem_users.mpr ⟨body, Arrival.mem_of_get? hbody, hnode⟩

theorem impossible_user {node user : Nat} (hnode : g.Impossible batch node)
    (huser : user ∈ users g.prods node) : g.Impossible batch user := by
  intro truth hrespects hobserved
  obtain ⟨body, hderivation, hmem⟩ := mem_users.mp huser
  by_contra htrue
  have hfalse := hnode truth hrespects hobserved
  have hused := hrespects.prods _ hderivation (by simpa using htrue) node hmem
  simp [hfalse] at hused

theorem impossible_sum {sum : Nat} {body : List Nat} (hbody : g.sum? sum = some body)
    (hall : ∀ node ∈ body, g.Impossible batch node) : g.Impossible batch sum := by
  intro truth hrespects hobserved
  by_contra htrue
  obtain ⟨node, hmem, hnode⟩ :=
    hrespects.sums _ (Arrival.mem_of_get? hbody) (by simpa using htrue)
  have hfalse := hall node hmem truth hrespects hobserved
  simp [hfalse] at hnode

theorem Refuted.impossible {head : Nat} (hhead : Refuted g batch head) :
    g.Impossible batch head := by
  induction hhead with
  | observed hnode huser =>
      exact impossible_user (fun truth _ hobserved => hobserved _ hnode) huser
  | sum _ _ hbody _ huser _ ih => exact impossible_user (impossible_sum hbody ih) huser

theorem SumOf.impossible {sum : Nat} (hsum : SumOf g (Refuted g batch) sum) :
    g.Impossible batch sum := by
  obtain ⟨_, body, _, _, hbody, hall⟩ := hsum
  exact impossible_sum hbody fun node hnode => (hall node hnode).impossible

/-- A sum that has become one of the products uses the product that is new. -/
theorem SumOf.before_or_uses {found : List Nat} {head sum : Nat}
    (hsum : SumOf g (· ∈ found ++ [head]) sum) :
    SumOf g (· ∈ found) sum ∨ sum ∈ users g.sums head := by
  obtain ⟨first, body, hfirst, huses, hbody, hall⟩ := hsum
  by_cases hbefore : first ∈ found ∧ ∀ node ∈ body, node ∈ found
  · exact Or.inl ⟨first, body, hbefore.1, huses, hbody, hbefore.2⟩
  · right
    by_cases hfirstOld : first ∈ found
    · obtain ⟨node, hnode, hnew⟩ : ∃ node ∈ body, node ∉ found := by
        by_contra hnone
        push Not at hnone
        exact hbefore ⟨hfirstOld, hnone⟩
      have heq : node = head := by simpa [hnew] using hall node hnode
      exact mem_users_of_sum? hbody (heq ▸ hnode)
    · have heq : first = head := by simpa [hfirstOld] using hfirst
      exact heq ▸ huses

/-! ## Progress of a round -/

/-- The observations that are left when the true ones on some nodes are dropped. -/
def without (batch : Batch) (nodes : List Nat) : Batch :=
  batch.filter (fun entry => !(entry.2 && nodes.contains entry.1))

theorem mem_without {nodes : List Nat} {entry : Nat × Bool} :
    entry ∈ without batch nodes ↔ entry ∈ batch ∧ ¬(entry.2 = true ∧ entry.1 ∈ nodes) := by
  obtain ⟨node, value⟩ := entry
  cases value <;> simp [without]

theorem dropTrue_without {nodes others : List Nat} {node : Nat}
    (hothers : ∀ other, other ∈ others ↔ other ∈ nodes ∨ other = node) :
    dropTrue (without batch nodes) node = without batch others := by
  unfold dropTrue without
  rw [List.filter_filter]
  apply List.filter_congr
  intro entry _
  have hmem := hothers entry.1
  cases entry.2 <;> by_cases hnode : entry.1 = node <;> simp_all

/-- How far a round has come.  The nodes that were known to be false in front of it, some of which
it has gone through, come with the number of products that were refuted in front of it. -/
structure Progress (g : CausalGraph α) (batch : Batch) (known visited : List Nat) (count : Nat)
    (s : Filtering) : Prop where
  known_false : ∀ node ∈ known, (node, false) ∈ batch ∨ SumOf g (Refuted g batch) node
  observed_known : ∀ node, (node, false) ∈ batch → node ∈ known
  kept_eq : s.kept = without batch (visited ++ s.falseProds)
  refuted : ∀ head ∈ s.falseProds, Refuted g batch head
  nodup : s.falseProds.Nodup
  heads : s.falseProds ⊆ g.prods.map Prod.fst
  users_refuted : ∀ node ∈ visited, ∀ user ∈ users g.prods node, user ∈ s.falseProds
  sums_noted : ∀ sum, SumOf g (· ∈ s.falseProds) sum → sum ∈ known ∨ sum ∈ s.candidates
  candidates_used : ∀ sum ∈ s.candidates, ∃ head ∈ s.falseProds, sum ∈ users g.sums head
  count_le : count ≤ s.falseProds.length
  count_lt : s.candidates ≠ [] → count < s.falseProds.length

variable {known visited : List Nat} {count : Nat} {s : Filtering}

theorem Progress.afterProd (hs : Progress g batch known visited count s) {head : Nat}
    (hhead : Refuted g batch head) (hused : head ∈ g.prods.map Prod.fst) :
    Progress g batch known visited count (markProd g s head) := by
  unfold markProd
  by_cases hold : head ∈ s.falseProds
  · simpa [hold] using hs
  · simp only [List.contains_iff_mem, hold, if_false]
    constructor
    case known_false => exact hs.known_false
    case observed_known => exact hs.observed_known
    case kept_eq =>
      dsimp only
      rw [hs.kept_eq]
      apply dropTrue_without
      intro other
      simp [or_assoc]
    case refuted =>
      intro other hother
      rcases List.mem_append.mp hother with hmem | hnew
      · exact hs.refuted other hmem
      · rw [List.mem_singleton] at hnew
        exact hnew ▸ hhead
    case nodup => exact hs.nodup.append (List.nodup_singleton head) (by simpa using hold)
    case heads =>
      intro other hother
      rcases List.mem_append.mp hother with hmem | hnew
      · exact hs.heads hmem
      · rw [List.mem_singleton] at hnew
        exact hnew ▸ hused
    case users_refuted =>
      intro node hnode user huser
      exact List.mem_append_left _ (hs.users_refuted node hnode user huser)
    case sums_noted =>
      intro sum hsum
      rcases hsum.before_or_uses with hbefore | huses
      · rcases hs.sums_noted sum hbefore with hmem | hmem
        · exact Or.inl hmem
        · exact Or.inr (Arrival.mem_insertAll.mpr (Or.inl hmem))
      · exact Or.inr (Arrival.mem_insertAll.mpr (Or.inr huses))
    case candidates_used =>
      intro sum hsum
      rcases Arrival.mem_insertAll.mp hsum with hmem | hnew
      · obtain ⟨first, hfirst, huses⟩ := hs.candidates_used sum hmem
        exact ⟨first, List.mem_append_left _ hfirst, huses⟩
      · exact ⟨head, by simp, hnew⟩
    case count_le =>
      have hle := hs.count_le
      simp only [List.length_append, List.length_singleton]
      omega
    case count_lt =>
      have hle := hs.count_le
      simp only [List.length_append, List.length_singleton]
      omega

theorem mem_falseProds_markProd (s : Filtering) (head other : Nat) :
    other ∈ (markProd g s head).falseProds ↔ other ∈ s.falseProds ∨ other = head := by
  unfold markProd
  by_cases hold : head ∈ s.falseProds
  · have hboth : other = head → other ∈ s.falseProds := fun heq => heq ▸ hold
    simp only [List.contains_iff_mem, hold, if_true]
    tauto
  · simp [hold]

theorem Progress.afterProds (hs : Progress g batch known visited count s) {heads : List Nat}
    (hheads : ∀ head ∈ heads, Refuted g batch head ∧ head ∈ g.prods.map Prod.fst) :
    Progress g batch known visited count (heads.foldl (markProd g) s) ∧
      ∀ head ∈ heads, head ∈ (heads.foldl (markProd g) s).falseProds := by
  suffices hmem : Progress g batch known visited count (heads.foldl (markProd g) s) ∧
      ∀ head, head ∈ s.falseProds ∨ head ∈ heads →
        head ∈ (heads.foldl (markProd g) s).falseProds from
    ⟨hmem.1, fun head hhead => hmem.2 head (Or.inr hhead)⟩
  induction heads generalizing s with
  | nil => exact ⟨hs, by simp⟩
  | cons head heads ih =>
      rw [List.forall_mem_cons] at hheads
      obtain ⟨hrest, hmem⟩ := ih (hs.afterProd hheads.1.1 hheads.1.2) hheads.2
      refine ⟨hrest, ?_⟩
      intro other hother
      apply hmem
      rw [mem_falseProds_markProd]
      simpa [or_assoc] using hother

theorem markProd_dropTrue (s : Filtering) (node head : Nat) :
    markProd g { s with kept := dropTrue s.kept node } head =
      { markProd g s head with kept := dropTrue (markProd g s head).kept node } := by
  unfold markProd
  by_cases hold : head ∈ s.falseProds
  · simp [hold]
  · simp [hold, dropTrue, List.filter_filter, Bool.and_comm]

/-- Dropping the node may as well wait until its users have been marked. -/
theorem markNode_eq (s : Filtering) (node : Nat) :
    markNode g s node =
      { (users g.prods node).foldl (markProd g) s with
        kept := dropTrue ((users g.prods node).foldl (markProd g) s).kept node } := by
  unfold markNode
  exact List.foldl_hom (fun s : Filtering => { s with kept := dropTrue s.kept node })
    (fun s head => markProd_dropTrue s node head)

theorem Progress.afterNode (hs : Progress g batch known visited count s) {node : Nat}
    (hnode : node ∈ known) :
    Progress g batch known (visited ++ [node]) count (markNode g s node) := by
  have husers : ∀ user ∈ users g.prods node,
      Refuted g batch user ∧ user ∈ g.prods.map Prod.fst := by
    intro user huser
    obtain ⟨body, hderivation, _⟩ := mem_users.mp huser
    refine ⟨?_, List.mem_map.mpr ⟨_, hderivation, rfl⟩⟩
    rcases hs.known_false node hnode with hobserved | ⟨head, body, hhead, hsum, hbody, hall⟩
    · exact .observed hobserved huser
    · exact .sum hhead hsum hbody hall huser
  obtain ⟨hmarked, hrefuted⟩ := hs.afterProds husers
  rw [markNode_eq]
  constructor
  case known_false => exact hmarked.known_false
  case observed_known => exact hmarked.observed_known
  case kept_eq =>
    dsimp only
    rw [hmarked.kept_eq]
    apply dropTrue_without
    intro other
    simp only [List.mem_append, List.mem_singleton]
    tauto
  case refuted => exact hmarked.refuted
  case nodup => exact hmarked.nodup
  case heads => exact hmarked.heads
  case users_refuted =>
    intro other hother user huser
    rcases List.mem_append.mp hother with hmem | hnew
    · exact hmarked.users_refuted other hmem user huser
    · rw [List.mem_singleton] at hnew
      exact hrefuted user (hnew ▸ huser)
  case sums_noted => exact hmarked.sums_noted
  case candidates_used => exact hmarked.candidates_used
  case count_le => exact hmarked.count_le
  case count_lt => exact hmarked.count_lt

theorem Progress.afterNodes (hs : Progress g batch known visited count s) {nodes : List Nat}
    (hnodes : nodes ⊆ known) :
    Progress g batch known (visited ++ nodes) count (nodes.foldl (markNode g) s) := by
  induction nodes generalizing s visited with
  | nil => simpa using hs
  | cons node nodes ih =>
      have hfirst := hs.afterNode (hnodes List.mem_cons_self)
      have hrest := ih hfirst fun other hother => hnodes (List.mem_cons_of_mem node hother)
      simpa using hrest

theorem mem_falseSums {sum : Nat} : sum ∈ falseSums g s ↔ sum ∈ s.candidates ∧
    ∃ body, g.sum? sum = some body ∧ ∀ node ∈ body, node ∈ s.falseProds := by
  unfold falseSums
  rw [List.mem_filter]
  cases g.sum? sum <;> simp

/-- Nothing has been done in a round that is about to begin. -/
def beginRound (s : Filtering) : Filtering :=
  { s with candidates := [] }

theorem Progress.nextRound (hs : Progress g batch known known count s) :
    Progress g batch (known ++ falseSums g s) known s.falseProds.length s.beginRound := by
  constructor
  case known_false =>
    intro node hnode
    rcases List.mem_append.mp hnode with hmem | hsum
    · exact hs.known_false node hmem
    · obtain ⟨hcandidate, body, hbody, hall⟩ := mem_falseSums.mp hsum
      obtain ⟨head, hhead, huses⟩ := hs.candidates_used node hcandidate
      exact Or.inr ⟨head, body, hs.refuted head hhead, huses, hbody,
        fun other hother => hs.refuted other (hall other hother)⟩
  case observed_known =>
    exact fun node hnode => List.mem_append_left _ (hs.observed_known node hnode)
  case kept_eq => exact hs.kept_eq
  case refuted => exact hs.refuted
  case nodup => exact hs.nodup
  case heads => exact hs.heads
  case users_refuted => exact hs.users_refuted
  case sums_noted =>
    intro sum hsum
    left
    rw [List.mem_append, mem_falseSums]
    have hnoted := hs.sums_noted sum hsum
    obtain ⟨_, body, _, _, hbody, hall⟩ := hsum
    exact hnoted.imp_right fun hmem => ⟨hmem, body, hbody, hall⟩
  case candidates_used => simp [beginRound]
  case count_le => exact le_refl _
  case count_lt => simp [beginRound]

theorem Progress.length_le (hs : Progress g batch known visited count s) :
    s.falseProds.length ≤ g.prods.length := by
  have hle := (List.subperm_of_subset hs.nodup hs.heads).length_le
  rwa [List.length_map] at hle

/-! ## The rounds -/

/-- The rounds from some false nodes on come to an end, and leave a state. -/
inductive Ends (g : CausalGraph α) : Filtering → List Nat → Filtering → Prop where
  | settled (s : Filtering) : Ends g s [] s
  | round {s last : Filtering} {found : List Nat} (hfound : found ≠ [])
      (hrest : Ends g (found.foldl (markNode g) s.beginRound)
        (falseSums g (found.foldl (markNode g) s.beginRound)) last) : Ends g s found last

theorem run_nil (fuel : Nat) (s : Filtering) : run g fuel s [] = s := by
  cases fuel <;> rfl

theorem run_succ (fuel : Nat) (s : Filtering) {found : List Nat} (hfound : found ≠ []) :
    run g (fuel + 1) s found =
      run g fuel (found.foldl (markNode g) s.beginRound)
        (falseSums g (found.foldl (markNode g) s.beginRound)) := by
  simp [run, hfound, beginRound]

/-- With more rounds to go than products to refute, the filter stops because nothing is left to
look at. -/
theorem Progress.run_ends (fuel : Nat) {found : List Nat}
    (hs : Progress g batch (visited ++ found) visited s.falseProds.length s.beginRound)
    (hfuel : g.prods.length < fuel + s.falseProds.length) :
    Ends g s found (run g fuel s found) ∧
      ∃ known count, Progress g batch known known count (run g fuel s found).beginRound := by
  induction fuel generalizing s visited found with
  | zero =>
      have hle : s.falseProds.length ≤ g.prods.length := hs.length_le
      omega
  | succ fuel ih =>
      by_cases hfound : found = []
      · subst found
        rw [run_nil]
        rw [List.append_nil] at hs
        exact ⟨.settled s, visited, _, hs⟩
      · have hround := hs.afterNodes (List.subset_append_right visited found)
        have hnext := hround.nextRound
        rw [run_succ fuel s hfound]
        set later := found.foldl (markNode g) s.beginRound
        by_cases hsums : falseSums g later = []
        · rw [hsums, run_nil]
          rw [hsums, List.append_nil] at hnext
          refine ⟨.round hfound ?_, _, _, hnext⟩
          change Ends g later (falseSums g later) later
          rw [hsums]
          exact .settled later
        · have hcandidates : later.candidates ≠ [] := by
            intro hnone
            simp [falseSums, hnone] at hsums
          have hmore := hround.count_lt hcandidates
          obtain ⟨hends, hlast⟩ := ih hnext (by omega)
          exact ⟨.round hfound hends, hlast⟩

/-- At the end all that the rules refute has been found. -/
theorem Progress.falseProds_iff (hs : Progress g batch known known count s)
    (hidle : s.candidates = []) (head : Nat) :
    head ∈ s.falseProds ↔ Refuted g batch head := by
  constructor
  · exact hs.refuted head
  · intro hhead
    induction hhead with
    | observed hnode huser => exact hs.users_refuted _ (hs.observed_known _ hnode) _ huser
    | @sum head sum user body _ hsum hbody _ huser ihHead ihBody =>
        apply hs.users_refuted sum _ user huser
        have hnoted := hs.sums_noted sum ⟨head, body, ihHead, hsum, hbody, ihBody⟩
        simpa [hidle] using hnoted

theorem Progress.known_iff (hs : Progress g batch known known count s)
    (hidle : s.candidates = []) (node : Nat) :
    node ∈ known ↔ (node, false) ∈ batch ∨ SumOf g (Refuted g batch) node := by
  constructor
  · exact hs.known_false node
  · rintro (hobserved | ⟨head, body, hhead, hsum, hbody, hall⟩)
    · exact hs.observed_known node hobserved
    · have hnoted := hs.sums_noted node ⟨head, body, (hs.falseProds_iff hidle head).mpr hhead,
        hsum, hbody, fun other hother => (hs.falseProds_iff hidle other).mpr (hall other hother)⟩
      simpa [hidle] using hnoted

end Filtering

namespace CausalGraph

open Filtering

/-- What the filter starts with: all observations, and the nodes that are observed false. -/
def filterStart (batch : Batch) : Filtering × List Nat :=
  let start := Arrival.putAll [] batch
  (⟨start, [], []⟩, (start.filter (fun entry => !entry.2)).map Prod.fst)

theorem filterStart_progress (g : CausalGraph α) (hnodes : (batch.map Prod.fst).Nodup) :
    Progress g batch (filterStart batch).2 [] 0 (filterStart batch).1 := by
  have hputAll : Arrival.putAll [] batch = batch := Arrival.putAll_of_new (by simpa using hnodes)
  have hfound : ∀ node, node ∈ (filterStart batch).2 ↔ (node, false) ∈ batch := by
    intro node
    simp [filterStart, hputAll]
  constructor
  case known_false => exact fun node hnode => Or.inl ((hfound node).mp hnode)
  case observed_known => exact fun node hnode => (hfound node).mpr hnode
  case kept_eq => simp [filterStart, hputAll, without]
  case refuted => simp [filterStart]
  case nodup => simp [filterStart]
  case heads => simp [filterStart]
  case users_refuted => simp
  case sums_noted =>
    rintro sum ⟨head, _, hhead, _⟩
    simp [filterStart] at hhead
  case candidates_used => simp [filterStart]
  case count_le => exact Nat.zero_le _
  case count_lt => simp [filterStart]

theorem filterStart_ends (g : CausalGraph α) (hnodes : (batch.map Prod.fst).Nodup) :
    Ends g (filterStart batch).1 (filterStart batch).2
        (run g (g.prods.length + 1) (filterStart batch).1 (filterStart batch).2) ∧
      ∃ known count, Progress g batch known known count
        (run g (g.prods.length + 1) (filterStart batch).1 (filterStart batch).2).beginRound := by
  have hstart : Progress g batch ([] ++ (filterStart batch).2) []
      (filterStart batch).1.falseProds.length (filterStart batch).1.beginRound :=
    filterStart_progress g hnodes
  exact hstart.run_ends (g.prods.length + 1) (by omega)

theorem dropContradictions_eq (g : CausalGraph α) (hnodes : (batch.map Prod.fst).Nodup) :
    ∃ nodes, g.dropContradictions batch = without batch nodes ∧
      ∀ node, node ∈ nodes ↔
        (node, false) ∈ batch ∨ Refuted g batch node ∨ SumOf g (Refuted g batch) node := by
  obtain ⟨-, known, count, hlast⟩ := filterStart_ends g hnodes
  refine ⟨_, hlast.kept_eq, ?_⟩
  intro node
  rw [List.mem_append, hlast.known_iff rfl node, hlast.falseProds_iff rfl node]
  tauto

theorem dropContradictions_sublist (g : CausalGraph α) (hnodes : (batch.map Prod.fst).Nodup) :
    (g.dropContradictions batch).Sublist batch := by
  obtain ⟨nodes, hkept, -⟩ := dropContradictions_eq g hnodes
  rw [hkept]
  exact List.filter_sublist

/-- What is dropped are the true observations on nodes that the rules refute. -/
theorem notMem_dropContradictions_iff (g : CausalGraph α) (hnodes : (batch.map Prod.fst).Nodup)
    {entry : Nat × Bool} (hentry : entry ∈ batch) :
    entry ∉ g.dropContradictions batch ↔
      entry.2 = true ∧ (Refuted g batch entry.1 ∨ SumOf g (Refuted g batch) entry.1) := by
  obtain ⟨node, value⟩ := entry
  obtain ⟨nodes, hkept, hmem⟩ := dropContradictions_eq g hnodes
  have hobserved : value = true → (node, false) ∉ batch := by
    rintro rfl hfalse
    have heq := List.inj_on_of_nodup_map hnodes hfalse hentry rfl
    simp at heq
  rw [hkept, mem_without, hmem]
  tauto

/-- The filter comes to an end with the observations in their order, less the true ones on nodes
that the rules refute.  Those nodes are false in every assignment of truth that respects the
derivations and the false observations, so every false observation is kept. -/
theorem dropContradictions_refuted (g : CausalGraph α) (hnodes : (batch.map Prod.fst).Nodup) :
    (∃ last, Ends g (filterStart batch).1 (filterStart batch).2 last ∧
      last.kept = g.dropContradictions batch) ∧
    (g.dropContradictions batch).Sublist batch ∧
    (∀ entry ∈ batch, entry.2 = false → entry ∈ g.dropContradictions batch) ∧
    (∀ entry ∈ batch, entry ∉ g.dropContradictions batch ↔
      entry.2 = true ∧ (Refuted g batch entry.1 ∨ SumOf g (Refuted g batch) entry.1)) ∧
    ∀ entry ∈ batch, entry ∉ g.dropContradictions batch →
      entry.2 = true ∧ g.Impossible batch entry.1 := by
  have hdropped : ∀ entry ∈ batch, entry ∉ g.dropContradictions batch ↔
      entry.2 = true ∧ (Refuted g batch entry.1 ∨ SumOf g (Refuted g batch) entry.1) :=
    fun entry hentry => notMem_dropContradictions_iff g hnodes hentry
  refine ⟨⟨_, (filterStart_ends g hnodes).1, rfl⟩, dropContradictions_sublist g hnodes, ?_,
    hdropped, ?_⟩
  case refine_1 =>
    intro entry hentry hfalse
    by_contra hnot
    have htrue := ((hdropped entry hentry).mp hnot).1
    simp [hfalse] at htrue
  case refine_2 =>
    intro entry hentry hnot
    obtain ⟨htrue, hrefuted⟩ := (hdropped entry hentry).mp hnot
    exact ⟨htrue, hrefuted.elim Refuted.impossible SumOf.impossible⟩

/-- The alarm rings when there is smoke, and somebody hears it when it rings. -/
def smokeAlarm : CausalGraph ℚ :=
  ⟨"alarm", ["smoke", "ring", "heard"], [0], [(2, [1])], [(1, [0])], [], []⟩

/-- Without smoke the alarm cannot have been heard. -/
theorem smokeAlarm_refuted :
    (([(2, true), (0, false)] : Batch).map Prod.fst).Nodup ∧
      smokeAlarm.dropContradictions [(2, true), (0, false)] = [(0, false)] ∧
      smokeAlarm.Impossible [(2, true), (0, false)] 2 := by
  have hnodes : (([(2, true), (0, false)] : Batch).map Prod.fst).Nodup := by decide
  have hkept : smokeAlarm.dropContradictions [(2, true), (0, false)] = [(0, false)] := by
    decide
  have hdropped := (smokeAlarm.dropContradictions_refuted hnodes).2.2.2.2 (2, true) (by simp)
  exact ⟨hnodes, hkept, (hdropped (by simp [hkept])).2⟩

end CausalGraph

end DerivationBelief

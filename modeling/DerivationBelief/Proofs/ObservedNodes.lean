import DerivationBelief.Proofs.ArrivalLookups
import DerivationBelief.Proofs.BeliefCache
import DerivationBelief.Proofs.ReproducibleAnswers
import DerivationBelief.Proofs.TotalMass
import Mathlib.Tactic

/-!
# What is observed of a network of replicas

Observations, questions, fittings and releases may come in any order.  Until it is released, a
network is bound to what was observed with success, the last value of each node in each replica, and
to nothing else; each of these has a variable of its own.  The first question that is answered, or a
fitting that succeeds, closes the network to observations.  From then on a prediction stays what it
is until the parameters are fitted again.  A released network refuses everything.
-/

namespace DerivationBelief

/-! ## Variables of their own -/

namespace VariableLayout

variable {l : VariableLayout} {node other replica later v : Nat}

theorem latentVar?_mem (hv : l.latentVar? replica node = some v) : v ∈ l.Latent replica := by
  unfold latentVar? at hv
  split at hv
  next hbayesian =>
    obtain ⟨place, hplace, rfl⟩ := Option.map_eq_some_iff.mp hv
    obtain ⟨hmem, rfl⟩ := Arrival.position?_eq_some_iff.mp hplace
    have hlt := List.idxOf_lt_length_of_mem hmem
    refine ⟨Nat.le_add_right _ _, ?_⟩
    unfold latentCount
    rw [if_pos hbayesian]
    omega
  next => cases hv

theorem phonyVar_mem_block {phony : Nat} (hphony : phony < l.phonyCount) :
    l.phonyVar replica phony ∈ l.Block replica := by
  have hnext := l.offset_succ replica
  unfold shift at hnext
  constructor
  · unfold phonyVar
    omega
  · unfold phonyVar
    omega

theorem nodeVar_inj (hnode : node < l.nodeCount) (hother : other < l.nodeCount)
    (heq : l.nodeVar later other = l.nodeVar replica node) : other = node ∧ later = replica := by
  have hreplica : later = replica := by
    by_contra hne
    apply not_mem_block_of_ne hne (CausalGraph.nodeVar_mem_block hother later)
    rw [heq]
    exact CausalGraph.nodeVar_mem_block hnode replica
  subst hreplica
  exact ⟨Nat.add_left_cancel heq, rfl⟩

theorem nodeVar_ne_latentVar (hnode : node < l.nodeCount) :
    l.latentVar? later other ≠ some (l.nodeVar replica node) := by
  intro hlatent
  have hmem := latentVar?_mem hlatent
  by_cases hreplica : later = replica
  · subst hreplica
    exact CausalGraph.nodeVar_not_latent hnode later hmem
  · exact not_mem_block_of_ne hreplica (CausalGraph.latent_subset_block l later hmem)
      (CausalGraph.nodeVar_mem_block hnode replica)

theorem nodeVar_ne_phonyVar (hnode : node < l.nodeCount) {phony : Nat}
    (hphony : phony < l.phonyCount) : l.phonyVar later phony ≠ l.nodeVar replica node := by
  intro heq
  by_cases hreplica : later = replica
  · subst hreplica
    unfold phonyVar nodeVar at heq
    omega
  · apply not_mem_block_of_ne hreplica (phonyVar_mem_block hphony)
    rw [heq]
    exact CausalGraph.nodeVar_mem_block hnode replica

end VariableLayout

/-! ## Files that can be written -/

namespace FileTree

/-- The file at a path can be written. -/
def Takes (tree : FileTree) (path : String) : Prop :=
  ∃ place, tree.place? path = some place ∧ tree.isDirectory place = false

variable {tree : FileTree} {path second : String}

theorem Takes.write? (htakes : tree.Takes path) (text : String) :
    ∃ next, tree.write? path text = some next ∧
      ∀ second, tree.Takes second → next.Takes second := by
  obtain ⟨place, hplace, hfree⟩ := htakes
  refine ⟨tree.put place (.file text), ?_, ?_⟩
  · unfold FileTree.write?
    simp [hplace, hfree]
  · rintro second ⟨reached, hreached, hother⟩
    refine ⟨reached, (place?_put hfree text second).trans hreached, ?_⟩
    by_cases hsame : place = reached
    · subst hsame
      simp [isDirectory, lookup?_put_self hfree]
    · unfold isDirectory at hother ⊢
      rwa [lookup?_put _ _ _ _ hsame]

end FileTree

/-! ## Calls -/

/-- A call to a network of replicas.  Files are as the call finds them. -/
inductive ReplicaCall where
  | observe (node time : Nat) (value : Bool)
  | predict (node : Nat)
  | posterior (dist : Nat)
  | fit (tree : FileTree) (directory name : String) (history : List (List (Nat × Bool)))
      (clock : Clock)
  | release

inductive ReplicaReply (α : Type) where
  | done (result : Except NetworkFault Unit)
  | truth (result : Except NetworkFault α)
  | states (result : Except NetworkFault (List α))

def ReplicaReply.result {α : Type} : ReplicaReply α → Except NetworkFault Unit
  | .done result => result
  | .truth result => result.map (fun _ => ())
  | .states result => result.map (fun _ => ())

namespace ReplicaCall

/-- The call asks for a belief. -/
def Asks : ReplicaCall → Prop
  | .predict _ | .posterior _ => True
  | .observe _ _ _ | .fit _ _ _ _ _ | .release => False

def Fits : ReplicaCall → Prop
  | .fit _ _ _ _ _ => True
  | .observe _ _ _ | .predict _ | .posterior _ | .release => False

/-- What the call names exists, and the files of a fitting can be written. -/
def InRange (l : VariableLayout) : ReplicaCall → Prop
  | .observe node time _ => node < l.nodeCount ∧ time ≤ l.repetitions
  | .predict node => node < l.nodeCount
  | .posterior dist => dist < l.distCount
  | .fit tree directory name history _ =>
      (∀ row ∈ history, ∀ entry ∈ row, entry.1 < l.nodeCount) ∧
        tree.Takes (joinPath directory (name ++ ".tab")) ∧
        tree.Takes (joinPath directory (name ++ ".em"))
  | .release => False

end ReplicaCall

namespace ReplicaNetwork

variable {α : Type} [Scalar α]

def perform (n : ReplicaNetwork α) : ReplicaCall → ReplicaReply α × ReplicaNetwork α
  | .observe node time value =>
      match n.observe node time value with
      | .ok next => (.done (.ok ()), next)
      | .error fault => (.done (.error fault), n)
  | .predict node => ((n.predict node).map .truth id)
  | .posterior dist => ((n.posterior dist).map .states id)
  | .fit tree directory name history clock =>
      ((n.fit tree directory name history clock).map .done Prod.fst)
  | .release => (.done (.ok ()), n.release)

def after (n : ReplicaNetwork α) (calls : List ReplicaCall) : ReplicaNetwork α :=
  calls.foldl (fun n call => (n.perform call).2) n

/-- The observation that a call adds, under its node and time. -/
def taken (n : ReplicaNetwork α) : ReplicaCall → List ((Nat × Nat) × Bool)
  | .observe node time value =>
      match n.observe node time value with
      | .ok _ => [((node, time), value)]
      | .error _ => []
  | .predict _ | .posterior _ | .fit _ _ _ _ _ | .release => []

/-- The observations that succeeded, in order. -/
def accepted (n : ReplicaNetwork α) : List ReplicaCall → List ((Nat × Nat) × Bool)
  | [] => []
  | call :: calls => n.taken call ++ accepted (n.perform call).2 calls

variable {n m : ReplicaNetwork α} {model : TableNetwork α} {evidence : Evidence}
  {l : VariableLayout} {calls : List ReplicaCall} {call : ReplicaCall}

/-- The variable of a node at a time. -/
def placeOf (n : ReplicaNetwork α) (key : Nat × Nat) : Nat :=
  n.variableOf key.2 key.1

/-- The network numbers its variables as the layout does. -/
structure Follows (n : ReplicaNetwork α) (l : VariableLayout) : Prop where
  nodeCount_eq : n.nodeCount = l.nodeCount
  offset_eq : n.offset = l.distCount
  shift_eq : n.shift = l.shift
  repetitions_eq : n.repetitions = l.repetitions

omit [Scalar α] in
theorem Follows.of_shell (hn : n.Follows l) (hshell : m.shell = n.shell) : m.Follows l where
  nodeCount_eq := (congrArg nodeCount hshell :).trans hn.nodeCount_eq
  offset_eq := (congrArg offset hshell :).trans hn.offset_eq
  shift_eq := (congrArg shift hshell :).trans hn.shift_eq
  repetitions_eq := (congrArg repetitions hshell :).trans hn.repetitions_eq

omit [Scalar α] in
theorem Follows.placeOf_eq (hn : n.Follows l) (key : Nat × Nat) :
    n.placeOf key = l.nodeVar key.2 key.1 := by
  unfold placeOf variableOf VariableLayout.nodeVar VariableLayout.offset
  rw [hn.offset_eq, hn.shift_eq]

omit [Scalar α] in
theorem placeOf_of_shell (hshell : m.shell = n.shell) : m.placeOf = n.placeOf := by
  funext key
  exact (congrArg (fun k => k.placeOf key) hshell :)

/-! ## Observing -/

omit [Scalar α] in
theorem observe_inversion {node time : Nat} {value : Bool}
    (hm : n.observe node time value = .ok m) :
    node < n.nodeCount ∧ time ≤ n.repetitions ∧ n.activated = false ∧
      ∃ backend, n.backend = some backend := by
  unfold observe at hm
  obtain ⟨_, hnode, hm⟩ := bind_eq_ok_iff.mp hm
  have hcount : node < n.nodeCount := by
    by_contra hge
    unfold checkNode at hnode
    rw [if_pos (Nat.le_of_not_lt hge)] at hnode
    cases hnode
  split at hm
  · cases hm
  next htime =>
    split at hm
    · cases hm
    next hactivated =>
      obtain ⟨backend, hloaded, _⟩ := bind_eq_ok_iff.mp hm
      refine ⟨hcount, Nat.le_of_not_lt htime, by simpa using hactivated, backend, ?_⟩
      unfold loaded at hloaded
      split at hloaded
      next hbackend =>
        cases hloaded
        exact hbackend
      next => cases hloaded

omit [Scalar α] in
theorem observe_refused (hn : n.activated = true ∨ n.backend = none) (node time : Nat)
    (value : Bool) : ∃ fault, n.observe node time value = .error fault := by
  cases hobserve : n.observe node time value with
  | error fault => exact ⟨fault, rfl⟩
  | ok next =>
      obtain ⟨_, _, hopen, backend, hbackend⟩ := observe_inversion hobserve
      rcases hn with hactivated | hnone
      · rw [hactivated] at hopen
        cases hopen
      · rw [hnone] at hbackend
        cases hbackend

omit [Scalar α] in
theorem mem_taken {entry : (Nat × Nat) × Bool} (hentry : entry ∈ n.taken call) :
    ∃ next, n.observe entry.1.1 entry.1.2 entry.2 = .ok next := by
  cases call with
  | observe node time value =>
      unfold taken at hentry
      dsimp only at hentry
      cases hobserve : n.observe node time value with
      | error fault =>
          rw [hobserve] at hentry
          cases hentry
      | ok next =>
          rw [hobserve] at hentry
          rw [List.mem_singleton.mp hentry]
          exact ⟨next, hobserve⟩
  | predict _ | posterior _ | fit _ _ _ _ _ | release => cases hentry

omit [Scalar α] in
theorem taken_eq_nil (hn : n.activated = true ∨ n.backend = none) (call : ReplicaCall) :
    n.taken call = [] := by
  cases call with
  | observe node time value =>
      obtain ⟨fault, hfault⟩ := observe_refused hn node time value
      unfold taken
      dsimp only
      rw [hfault]
  | predict _ | posterior _ | fit _ _ _ _ _ | release => rfl

omit [Scalar α] in
theorem Follows.observe_closed (hn : n.Follows l) (hactivated : n.activated = true)
    {node time : Nat} (hnode : node < l.nodeCount) (htime : time ≤ l.repetitions) (value : Bool) :
    n.observe node time value = .error (.alreadyActivated n.name) := by
  rw [← hn.nodeCount_eq] at hnode
  rw [← hn.repetitions_eq] at htime
  unfold observe checkNode
  rw [if_neg (Nat.not_le.mpr hnode), hactivated]
  simp only [bind, Except.bind, if_neg (Nat.not_lt.mpr htime), if_true]

/-! ## Activation -/

theorem activate_activated (hm : n.activate = .ok m) : m.activated = true := by
  unfold activate at hm
  split at hm
  next hactivated =>
    cases hm
    exact hactivated
  next =>
    obtain ⟨backend, _, hm⟩ := bind_eq_ok_iff.mp hm
    split at hm
    · cases hm
      rfl
    · cases hm

theorem predict_closes (n : ReplicaNetwork α) (node : Nat) :
    (∃ fault, n.predict node = (.error fault, n)) ∨ (n.predict node).2.activated = true := by
  unfold predict
  cases n.checkNode node with
  | error fault => exact Or.inl ⟨fault, rfl⟩
  | ok _ =>
      cases hactive : n.activate with
      | error fault => exact Or.inl ⟨fault, rfl⟩
      | ok active =>
          right
          have hactivated := activate_activated hactive
          dsimp only
          split
          · exact hactivated
          · split <;> exact hactivated

theorem posterior_closes (n : ReplicaNetwork α) (dist : Nat) :
    (∃ fault, n.posterior dist = (.error fault, n)) ∨ (n.posterior dist).2.activated = true := by
  unfold posterior
  split
  · exact Or.inl ⟨_, rfl⟩
  cases hactive : n.activate with
  | error fault => exact Or.inl ⟨fault, rfl⟩
  | ok active =>
      right
      have hactivated := activate_activated hactive
      dsimp only
      split
      · exact hactivated
      · split <;> exact hactivated

/-- A fitting succeeds and activates the network, or fails and leaves everything but its tables. -/
theorem fit_closes (n : ReplicaNetwork α) (tree : FileTree) (directory name : String)
    (history : List (List (Nat × Bool))) (clock : Clock) :
    (∃ fault backend last,
      n.fit tree directory name history clock = (.error fault, { n with backend }, last)) ∨
      (n.fit tree directory name history clock).2.1.activated = true := by
  unfold fit
  dsimp only
  cases history.flatten.forM (fun entry => n.checkNode entry.1) with
  | error fault => exact Or.inl ⟨fault, n.backend, _, rfl⟩
  | ok _ =>
      dsimp only
      cases (n.historyTable history).write tree (joinPath directory (name ++ ".tab")) with
      | error cause => exact Or.inl ⟨_, n.backend, _, rfl⟩
      | ok middle =>
          dsimp only
          cases EstimatedFactor.writePlan (List.range n.offset) middle
              (joinPath directory (name ++ ".em")) with
          | error cause => exact Or.inl ⟨_, n.backend, _, rfl⟩
          | ok last =>
              dsimp only
              cases n.loaded with
              | error fault => exact Or.inl ⟨fault, n.backend, _, rfl⟩
              | ok backend =>
                  dsimp only
                  split
                  · exact Or.inr rfl
                  · exact Or.inl ⟨_, _, _, rfl⟩

/-- A question or a fitting leaves the network active, or fails and activates nothing. -/
theorem perform_closes (n : ReplicaNetwork α) (hcall : call.Asks ∨ call.Fits) :
    (n.perform call).2.activated = true ∨
      (n.perform call).2.activated = n.activated ∧
        ∃ fault, (n.perform call).1.result = .error fault := by
  cases call with
  | observe _ _ _ | release =>
      rcases hcall with hasks | hfits
      · cases hasks
      · cases hfits
  | predict node =>
      rcases n.predict_closes node with ⟨fault, hfault⟩ | hcloses
      · right
        unfold perform
        dsimp only
        rw [hfault]
        exact ⟨rfl, fault, rfl⟩
      · exact Or.inl hcloses
  | posterior dist =>
      rcases n.posterior_closes dist with ⟨fault, hfault⟩ | hcloses
      · right
        unfold perform
        dsimp only
        rw [hfault]
        exact ⟨rfl, fault, rfl⟩
      · exact Or.inl hcloses
  | fit tree directory name history clock =>
      rcases n.fit_closes tree directory name history clock with
        ⟨fault, backend, last, hfault⟩ | hcloses
      · right
        unfold perform
        dsimp only
        rw [hfault]
        exact ⟨rfl, fault, rfl⟩
      · exact Or.inl hcloses

theorem perform_ok_activated (hcall : call.Asks ∨ call.Fits)
    (hok : (n.perform call).1.result = .ok ()) : (n.perform call).2.activated = true := by
  rcases n.perform_closes hcall with hcloses | ⟨_, fault, hfault⟩
  · exact hcloses
  · rw [hok] at hfault
    cases hfault

/-- Only a release takes activation back. -/
theorem perform_activated (hactivated : n.activated = true) (hcall : call ≠ .release) :
    (n.perform call).2.activated = true := by
  have hother (hkind : call.Asks ∨ call.Fits) : (n.perform call).2.activated = true := by
    rcases n.perform_closes hkind with hcloses | ⟨hsame, _⟩
    · exact hcloses
    · exact hsame.trans hactivated
  cases call with
  | observe node time value =>
      obtain ⟨fault, hfault⟩ := observe_refused (Or.inl hactivated) node time value
      unfold perform
      dsimp only
      rw [hfault]
      exact hactivated
  | predict _ | posterior _ => exact hother (Or.inl trivial)
  | fit _ _ _ _ _ => exact hother (Or.inr trivial)
  | release => exact absurd rfl hcall

/-! ## Released networks -/

def Released (n : ReplicaNetwork α) : Prop :=
  n.backend = none ∧ n.activated = false

omit [Scalar α] in
theorem Released.loaded_eq (hn : n.Released) : n.loaded = .error (.released n.name) := by
  unfold loaded
  rw [hn.1]

theorem Released.activate_eq (hn : n.Released) : n.activate = .error (.released n.name) := by
  unfold activate
  rw [hn.2, hn.loaded_eq]
  rfl

/-- Nothing wakes a released network. -/
theorem Released.perform (hn : n.Released) (call : ReplicaCall) : (n.perform call).2 = n := by
  cases call with
  | observe node time value =>
      obtain ⟨fault, hfault⟩ := observe_refused (Or.inr hn.1) node time value
      unfold ReplicaNetwork.perform
      dsimp only
      rw [hfault]
  | predict node =>
      unfold ReplicaNetwork.perform predict
      dsimp only
      rw [hn.activate_eq]
      cases n.checkNode node <;> rfl
  | posterior dist =>
      unfold ReplicaNetwork.perform posterior
      dsimp only
      rw [hn.activate_eq]
      split <;> rfl
  | fit tree directory name history clock =>
      unfold ReplicaNetwork.perform fit
      dsimp only
      rw [hn.loaded_eq]
      split
      · rfl
      · split
        · rfl
        · split <;> rfl
  | release =>
      unfold ReplicaNetwork.perform release
      dsimp only
      rw [← hn.1, ← hn.2]

theorem Released.after (hn : n.Released) (calls : List ReplicaCall) : n.after calls = n := by
  induction calls with
  | nil => rfl
  | cons call calls ih =>
      change (n.perform call).2.after calls = n
      rw [hn.perform call, ih]

theorem Released.accepted (hn : n.Released) (calls : List ReplicaCall) : n.accepted calls = [] := by
  induction calls with
  | nil => rfl
  | cons call calls ih =>
      unfold ReplicaNetwork.accepted
      rw [taken_eq_nil (Or.inr hn.1), hn.perform call, ih]
      rfl

theorem after_append (n : ReplicaNetwork α) (calls more : List ReplicaCall) :
    n.after (calls ++ more) = (n.after calls).after more :=
  List.foldl_append

theorem after_of_release (n : ReplicaNetwork α) (hrelease : .release ∈ calls) :
    (n.after calls).Released := by
  obtain ⟨before, later, rfl⟩ := List.append_of_mem hrelease
  have hreleased : ((n.after before).release).Released := ⟨rfl, rfl⟩
  have hafter : n.after (before ++ .release :: later) = ((n.after before).release).after later :=
    n.after_append before (.release :: later)
  rw [hafter, hreleased.after]
  exact hreleased

/-- Whatever there is to ask of a released network, it refuses. -/
theorem Released.refuses (hn : n.Released) (hfollows : n.Follows l) (hcall : call.InRange l) :
    (n.perform call).1.result = .error (.released n.name) := by
  have hcheck : ∀ node < l.nodeCount, n.checkNode node = .ok () := by
    intro node hnode
    unfold checkNode
    rw [hfollows.nodeCount_eq, if_neg (Nat.not_le.mpr hnode)]
  cases call with
  | observe node time value =>
      have htime : time ≤ n.repetitions := hfollows.repetitions_eq ▸ hcall.2
      have hobserve : n.observe node time value = .error (.released n.name) := by
        unfold observe
        rw [hcheck node hcall.1, hn.2, hn.loaded_eq]
        simp only [bind, Except.bind, if_neg (Nat.not_lt.mpr htime)]
        rfl
      unfold ReplicaNetwork.perform
      dsimp only
      rw [hobserve]
      rfl
  | predict node =>
      unfold ReplicaNetwork.perform predict
      dsimp only
      rw [hcheck node hcall, hn.activate_eq]
      rfl
  | posterior dist =>
      have hdist : dist < n.offset := hfollows.offset_eq ▸ hcall
      unfold ReplicaNetwork.perform posterior
      dsimp only
      rw [if_neg (Nat.not_le.mpr hdist), hn.activate_eq]
      rfl
  | fit tree directory name history clock =>
      obtain ⟨hhistory, htable, hplan⟩ := hcall
      have hnodes : history.flatten.forM (fun entry => n.checkNode entry.1) = .ok () := by
        rw [forM_eq_ok_iff]
        intro entry hentry
        obtain ⟨row, hrow, hmem⟩ := List.mem_flatten.mp hentry
        exact hcheck entry.1 (hhistory row hrow entry hmem)
      obtain ⟨middle, hmiddle, htakes⟩ := htable.write? (n.historyTable history).text
      obtain ⟨last, hlast, _⟩ :=
        (htakes _ hplan).write? (EstimatedFactor.planText (List.range n.offset))
      unfold ReplicaNetwork.perform fit EvidenceTable.write EstimatedFactor.writePlan
      dsimp only
      rw [hnodes, hmiddle]
      dsimp only
      rw [hlast, hn.loaded_eq]
      rfl
  | release => cases hcall

/-! ## Loaded networks -/

theorem fit_answers (hn : n.Answers model evidence) (tree : FileTree) (directory name : String)
    (history : List (List (Nat × Bool))) (clock : Clock) :
    (∃ fitted, (n.fit tree directory name history clock).2.1.Answers fitted evidence) ∧
      (n.fit tree directory name history clock).2.1.shell = n.shell := by
  obtain ⟨backend, hloaded, _, rfl, rfl, hfresh⟩ := loaded_of_answers hn
  unfold fit
  dsimp only
  rw [hloaded]
  split
  · exact ⟨⟨_, hn⟩, rfl⟩
  split
  · exact ⟨⟨_, hn⟩, rfl⟩
  split
  · exact ⟨⟨_, hn⟩, rfl⟩
  next last _ =>
    obtain ⟨hfitted, hevidence, _⟩ := ExactNetwork.fit_keeps hfresh last
      (joinPath directory (name ++ ".tab")) (joinPath directory (name ++ ".em")) clock
    dsimp only
    split
    next next heq =>
      rw [heq] at hfitted hevidence
      exact ⟨⟨_, next, rfl, rfl, hevidence, hfitted⟩, rfl⟩
    next cause next heq =>
      rw [heq] at hfitted hevidence
      exact ⟨⟨_, next, rfl, rfl, hevidence, hfitted⟩, rfl⟩

/-- A call that is no release adds what it observes to the evidence, and only a fitting touches the
tables. -/
theorem perform_answers (hn : n.Answers model evidence) (hcall : call ≠ .release) :
    (n.perform call).2.shell = n.shell ∧
      ∃ fitted, (¬ call.Fits → fitted = model) ∧ (n.perform call).2.Answers fitted
        (Arrival.putAll evidence ((n.taken call).map (Prod.map n.placeOf Bool.toNat))) := by
  cases call with
  | observe node time value =>
      unfold perform taken
      dsimp only
      cases hobserve : n.observe node time value with
      | error fault => exact ⟨rfl, model, fun _ => rfl, hn⟩
      | ok next =>
          obtain ⟨backend, hbackend, rfl, rfl, _⟩ := hn
          obtain ⟨bound, hbound, rfl⟩ := observe_ok hbackend hobserve
          obtain ⟨hmodel, hevidence, hfresh⟩ := ExactNetwork.observe_fresh hbound
          exact ⟨rfl, backend.model, fun _ => rfl, bound, rfl, hmodel, hevidence, hfresh⟩
  | predict node =>
      obtain ⟨hanswers, hshell⟩ := (predict_neutral node).keeps n model evidence hn
      exact ⟨hshell, model, fun _ => rfl, hanswers⟩
  | posterior dist =>
      obtain ⟨hanswers, hshell⟩ := (posterior_neutral dist).keeps n model evidence hn
      exact ⟨hshell, model, fun _ => rfl, hanswers⟩
  | fit tree directory name history clock =>
      obtain ⟨⟨fitted, hfitted⟩, hshell⟩ := fit_answers hn tree directory name history clock
      exact ⟨hshell, fitted, fun hfits => absurd trivial hfits, hfitted⟩
  | release => exact absurd rfl hcall

/-- Without a release, the evidence grows by what is accepted. -/
theorem after_answers (hn : n.Answers model evidence) (hcalls : .release ∉ calls) :
    (n.after calls).shell = n.shell ∧
      ∃ fitted, ((∀ call ∈ calls, ¬ call.Fits) → fitted = model) ∧ (n.after calls).Answers fitted
        (Arrival.putAll evidence ((n.accepted calls).map (Prod.map n.placeOf Bool.toNat))) := by
  induction calls generalizing n model evidence with
  | nil => exact ⟨rfl, model, fun _ => rfl, hn⟩
  | cons call calls ih =>
      rw [List.mem_cons, not_or] at hcalls
      obtain ⟨hshell, first, hfirst, hnext⟩ := perform_answers hn (Ne.symm hcalls.1)
      obtain ⟨hlast, fitted, hfitted, hanswers⟩ := ih hnext hcalls.2
      refine ⟨hlast.trans hshell, fitted, ?_, ?_⟩
      · intro hfits
        rw [List.forall_mem_cons] at hfits
        exact (hfitted hfits.2).trans (hfirst hfits.1)
      · rw [placeOf_of_shell hshell] at hanswers
        unfold accepted
        rw [List.map_append]
        unfold Arrival.putAll at hanswers ⊢
        rw [List.foldl_append]
        exact hanswers

theorem after_shell (hn : n.Answers model evidence) (calls : List ReplicaCall) :
    (n.after calls).shell = n.shell := by
  induction calls generalizing n model evidence with
  | nil => rfl
  | cons call calls ih =>
      change ((n.perform call).2.after calls).shell = n.shell
      by_cases hcall : call = .release
      · subst hcall
        have hreleased : n.release.Released := ⟨rfl, rfl⟩
        change (n.release.after calls).shell = n.shell
        rw [hreleased.after]
        rfl
      · obtain ⟨hshell, fitted, _, hnext⟩ := perform_answers hn hcall
        exact (ih hnext).trans hshell

/-- Only nodes and times that exist are accepted. -/
theorem accepted_exists (hn : n.Answers model evidence) (hfollows : n.Follows l)
    (calls : List ReplicaCall) :
    ∀ entry ∈ n.accepted calls, entry.1.1 < l.nodeCount ∧ entry.1.2 ≤ l.repetitions := by
  induction calls generalizing n model evidence with
  | nil => exact fun entry hentry => absurd hentry List.not_mem_nil
  | cons call calls ih =>
      intro entry hentry
      rcases List.mem_append.mp hentry with htaken | hlater
      · obtain ⟨next, hnext⟩ := mem_taken htaken
        obtain ⟨hnode, htime, _⟩ := observe_inversion hnext
        exact ⟨hfollows.nodeCount_eq ▸ hnode, hfollows.repetitions_eq ▸ htime⟩
      · by_cases hcall : call = .release
        · subst hcall
          have hreleased : n.release.Released := ⟨rfl, rfl⟩
          have hnone : (n.perform .release).2.accepted calls = [] := hreleased.accepted calls
          rw [hnone] at hlater
          cases hlater
        · obtain ⟨hshell, fitted, _, hnext⟩ := perform_answers hn hcall
          exact ih hnext (hfollows.of_shell hshell) entry hlater

theorem after_activated (hactivated : n.activated = true) (hcalls : .release ∉ calls) :
    (n.after calls).activated = true ∧ n.accepted calls = [] := by
  induction calls generalizing n with
  | nil => exact ⟨hactivated, rfl⟩
  | cons call calls ih =>
      rw [List.mem_cons, not_or] at hcalls
      obtain ⟨hlast, hnone⟩ :=
        ih (perform_activated hactivated (Ne.symm hcalls.1)) hcalls.2
      refine ⟨hlast, ?_⟩
      unfold accepted
      rw [taken_eq_nil (Or.inl hactivated), hnone]
      rfl

/-! ## Created networks -/

/-- What can be relied on in a network, whatever calls it gets. -/
structure KeepsObservations (n : ReplicaNetwork α) (l : VariableLayout) : Prop where
  /-- The variable of a node in a replica is that of no other node or replica, and no parameter,
  latent or phony variable. -/
  own_variable : ∀ node < l.nodeCount, ∀ time,
    l.distCount ≤ l.nodeVar time node ∧
      (∀ replica other, l.latentVar? replica other ≠ some (l.nodeVar time node)) ∧
      (∀ replica, ∀ phony < l.phonyCount, l.phonyVar replica phony ≠ l.nodeVar time node) ∧
      ∀ later, ∀ other < l.nodeCount, l.nodeVar later other = l.nodeVar time node →
        other = node ∧ later = time
  accepted_exists : ∀ calls, ∀ entry ∈ n.accepted calls,
    entry.1.1 < l.nodeCount ∧ entry.1.2 ≤ l.repetitions
  /-- Until a release the evidence is the last accepted value of each node at each time. -/
  evidence_exact : ∀ calls, .release ∉ calls → ∃ backend, (n.after calls).backend = some backend ∧
    (backend.evidence.map Prod.fst).Nodup ∧
    ∀ v s, (v, s) ∈ backend.evidence ↔
      ∃ node time value,
        (Arrival.valuesOf (n.accepted calls) (node, time)).getLast? = some value ∧
          v = l.nodeVar time node ∧ s = value.toNat
  rejected_keeps : ∀ calls node time value fault,
    ((n.after calls).perform (.observe node time value)).1.result = .error fault →
      ((n.after calls).perform (.observe node time value)).2 = n.after calls
  /-- A question that is answered or a fitting that succeeds closes the network. -/
  closed : ∀ before call later, call.Asks ∨ call.Fits →
    ((n.after before).perform call).1.result = .ok () → .release ∉ later →
    ∀ node < l.nodeCount, ∀ time ≤ l.repetitions, ∀ value,
      ((n.after (before ++ call :: later)).perform (.observe node time value)).1.result =
        .error (.alreadyActivated n.name)
  /-- Until the next fitting a prediction stays what it is. -/
  steady : ∀ before node later p q, (∀ call ∈ later, ¬ call.Fits) →
    ((n.after before).predict node).1 = .ok p →
    ((n.after (before ++ .predict node :: later)).predict node).1 = .ok q → q = p
  released : ∀ calls, .release ∈ calls → ∀ call, call.InRange l →
    ((n.after calls).perform call).1.result = .error (.released n.name)

theorem evidence_after (hn : n.Answers model []) (hfollows : n.Follows l)
    (hcalls : .release ∉ calls) :
    ∃ backend, (n.after calls).backend = some backend ∧ (backend.evidence.map Prod.fst).Nodup ∧
      ∀ v s, (v, s) ∈ backend.evidence ↔
        ∃ node time value,
          (Arrival.valuesOf (n.accepted calls) (node, time)).getLast? = some value ∧
            v = l.nodeVar time node ∧ s = value.toNat := by
  obtain ⟨_, _, _, backend, hbackend, _, hevidence, _⟩ := after_answers hn hcalls
  have hkeys : (backend.evidence.map Prod.fst).Nodup := by
    rw [hevidence]
    apply Arrival.keys_putAll_nodup
    exact List.nodup_nil
  refine ⟨backend, hbackend, hkeys, ?_⟩
  intro v s
  have hplace : ∀ entry ∈ n.accepted calls, ∀ other ∈ n.accepted calls,
      n.placeOf entry.1 = n.placeOf other.1 → entry.1 = other.1 := by
    intro entry hentry other hother heq
    rw [hfollows.placeOf_eq, hfollows.placeOf_eq] at heq
    obtain ⟨hnode, htime⟩ := VariableLayout.nodeVar_inj
      (accepted_exists hn hfollows calls other hother).1
      (accepted_exists hn hfollows calls entry hentry).1 heq
    exact Prod.ext hnode htime
  rw [← Arrival.get?_eq_some_iff hkeys, hevidence, Arrival.get?_putAll_map_eq_some_iff hplace]
  simp only [Prod.exists, hfollows.placeOf_eq]

theorem steady_after (hn : n.Answers model evidence) {before later : List ReplicaCall}
    {node : Nat} {p q : α} (hfits : ∀ call ∈ later, ¬ call.Fits)
    (hp : ((n.after before).predict node).1 = .ok p)
    (hq : ((n.after (before ++ .predict node :: later)).predict node).1 = .ok q) : q = p := by
  -- A released network predicts nothing, so there was no release.
  have hrefuses : ∀ m : ReplicaNetwork α, m.Released → ∀ r, (m.predict node).1 ≠ .ok r := by
    intro m hm r hr
    unfold predict at hr
    rw [hm.activate_eq] at hr
    cases hcheck : m.checkNode node with
    | error fault =>
        rw [hcheck] at hr
        cases hr
    | ok _ =>
        rw [hcheck] at hr
        cases hr
  have hbefore : .release ∉ before := fun hmem => hrefuses _ (n.after_of_release hmem) p hp
  have hlater : .release ∉ later := by
    intro hmem
    have hmem : .release ∈ before ++ .predict node :: later :=
      List.mem_append_right _ (List.mem_cons_of_mem _ hmem)
    exact hrefuses _ (n.after_of_release hmem) q hq
  obtain ⟨_, fitted, _, hasked⟩ := after_answers hn hbefore
  obtain ⟨hkept, hshell⟩ := (predict_neutral node).keeps _ _ _ hasked
  have hactivated : ((n.after before).predict node).2.activated = true := by
    rcases (n.after before).predict_closes node with ⟨fault, hfault⟩ | hcloses
    · rw [hfault] at hp
      cases hp
    · exact hcloses
  obtain ⟨hsame, again, htables, hanswers⟩ := after_answers hkept hlater
  rw [htables hfits, (after_activated hactivated hlater).2] at hanswers
  rw [n.after_append] at hq
  have hoffset := congrArg ReplicaNetwork.offset (hsame.trans hshell)
  exact (predict_neutral node).agrees ⟨_, _, hanswers, hasked, hoffset⟩ hq hp

theorem keepsObservations (hn : n.Answers model []) (hfollows : n.Follows l) :
    n.KeepsObservations l where
  own_variable node hnode time :=
    ⟨l.distCount_le_offset time |>.trans (Nat.le_add_right _ _),
      fun _ _ => VariableLayout.nodeVar_ne_latentVar hnode,
      fun _ _ hphony => VariableLayout.nodeVar_ne_phonyVar hnode hphony,
      fun _ _ hother heq => VariableLayout.nodeVar_inj hnode hother heq⟩
  accepted_exists := accepted_exists hn hfollows
  evidence_exact _ hcalls := evidence_after hn hfollows hcalls
  rejected_keeps := by
    intro calls node time value fault hfault
    unfold perform at hfault ⊢
    dsimp only at hfault ⊢
    split at hfault
    · cases hfault
    · rfl
  closed := by
    intro before call later hcall hok hlater node hnode time htime value
    have hclosed := (after_activated (perform_ok_activated hcall hok) hlater).1
    have hshell := after_shell hn (before ++ call :: later)
    rw [n.after_append] at hshell ⊢
    have hobserve := (hfollows.of_shell hshell).observe_closed hclosed hnode htime value
    have hname : ((n.after before).after (call :: later)).name = n.name :=
      (congrArg ReplicaNetwork.name hshell :)
    unfold perform
    dsimp only
    rw [hobserve, hname]
    rfl
  steady _ _ _ _ _ hfits hp hq := steady_after hn hfits hp hq
  released := by
    intro calls hcalls call hcall
    have hshell := after_shell hn calls
    have hname : (n.after calls).name = n.name := (congrArg ReplicaNetwork.name hshell :)
    rw [(n.after_of_release hcalls).refuses (hfollows.of_shell hshell) hcall, hname]

/-- The variables of a created network are numbered as the compiled graph is laid out. -/
theorem compile_layout {g : CausalGraph α} {repetitions : Nat} {bayesian : Bool} {limit : Nat}
    {f : FactorGraph α} (hcompile : FactorGraph.compile g repetitions bayesian limit = .ok f) :
    f.layout.distCount = g.distCount ∧ f.layout.nodeCount = g.nodeCount ∧
      f.layout.repetitions = repetitions := by
  unfold FactorGraph.compile at hcompile
  split at hcompile
  · cases hcompile
  · obtain ⟨emitted, _, hcompile⟩ := bind_eq_ok_iff.mp hcompile
    cases hcompile
    exact ⟨rfl, rfl, rfl⟩

/-- A network that was created for a graph neither loses nor misplaces what is observed, in whatever
order it is called. -/
theorem observations_kept [Numeral α] {tree : FileTree} {directory name : String}
    {g : CausalGraph α} {repetitions : Nat} {bayesian : Bool} {limit : Nat}
    {options : SolverOptions α} {n : ReplicaNetwork α}
    (hn : (create tree directory name g repetitions bayesian limit options).1 = .ok n) :
    ∃ f, FactorGraph.compile g repetitions bayesian limit = .ok f ∧
      f.layout.distCount = g.distCount ∧ f.layout.nodeCount = g.nodeCount ∧
      f.layout.repetitions = repetitions ∧ n.name = name ∧ n.KeepsObservations f.layout := by
  have hcreation := create_spec tree directory name g repetitions bayesian limit options
  rw [hn] at hcreation
  cases hcreation with
  | @loaded f backend hcompile hread =>
      obtain ⟨hdists, hnodes, hrepetitions⟩ := compile_layout hcompile
      obtain ⟨hevidence, hfresh⟩ := FactorGraph.readBack_fresh hread
      refine ⟨f, hcompile, hdists, hnodes, hrepetitions, rfl, ?_⟩
      apply keepsObservations ⟨backend, rfl, rfl, hevidence, hfresh⟩
      exact ⟨hnodes.symm, rfl, rfl, hrepetitions.symm⟩

/-! ## A street -/

section Street

open OneShotLearner FactorGraph

theorem wetStreet_created :
    ∃ n, (create (α := ℚ) .empty "" "street" wetStreet 1 true 2 .default).1 = .ok n := by
  have hpath : joinPath "" ("street" ++ ".fg") = "street.fg" := by
    decide +kernel
  have hname : FileTree.PlainName "street.fg" := by
    constructor <;> decide +kernel
  have hreads : ((compile (α := ℚ) wetStreet 1 true 2).toOption.bind (fun f =>
      (f.readBack "street.fg" .default).toOption)).isSome := by
    simp only [readBack, Factor.parseAll, FactorGraph.text, LineReader.ofText,
      String.toList_ofList]
    decide +kernel
  obtain ⟨backend, hbackend⟩ := Option.isSome_iff_exists.mp hreads
  obtain ⟨f, hcompile, hread⟩ := Option.bind_eq_some_iff.mp hbackend
  obtain ⟨written, hwrite⟩ := hname.write?_empty f.text
  rw [← hpath] at hread hwrite
  have hcreate := create_loaded (eq_ok_of_toOption hcompile) hwrite (eq_ok_of_toOption hread)
  exact ⟨_, congrArg Prod.fst hcreate⟩

theorem wetStreet_observations_kept :
    ∃ n f, (create (α := ℚ) .empty "" "street" wetStreet 1 true 2 .default).1 = .ok n ∧
      compile wetStreet 1 true 2 = .ok f ∧ f.layout.distCount = wetStreet.distCount ∧
      f.layout.nodeCount = wetStreet.nodeCount ∧ f.layout.repetitions = 1 ∧ n.name = "street" ∧
      n.KeepsObservations f.layout := by
  obtain ⟨n, hn⟩ := wetStreet_created
  obtain ⟨f, hkept⟩ := observations_kept hn
  exact ⟨n, f, hn, hkept⟩

end Street

end ReplicaNetwork

end DerivationBelief

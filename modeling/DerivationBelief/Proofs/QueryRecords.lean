import DerivationBelief.DifferentiatingLearner
import DerivationBelief.IteratingLearner
import DerivationBelief.Proofs.FileNames
import DerivationBelief.Proofs.NetworkAnswers
import DerivationBelief.Proofs.UnsignedNumeral
import Mathlib.Tactic

/-!
# Records of queries

A network notes what it predicts: one line for each node, in the order of the first predictions,
with the latest answer.  The record of a network is a file named by a number in at least three
digits.  Different numbers have different files, and nothing else that a learner writes while it
compiles and infers gets in their way.
-/

namespace DerivationBelief

/-! ## Names of records -/

namespace Text

theorem digitsValue?_replicate_zero (count : Nat) (cs : List Char) :
    digitsValue? 0 (List.replicate count '0' ++ cs) = digitsValue? 0 cs := by
  induction count with
  | zero => rfl
  | succ count ih =>
      rw [List.replicate_succ, List.cons_append]
      exact ih

end Text

theorem toList_threeDigits (n : Nat) :
    (threeDigits n).toList =
      List.replicate (3 - (Text.natDigits n).length) '0' ++ Text.natDigits n :=
  String.toList_ofList

/-- Leading zeros do not change what is read, so the number can be read back. -/
theorem threeDigits_injective : Function.Injective threeDigits := by
  intro m n hsame
  have hread : ∀ k, Text.digitsValue? 0 (threeDigits k).toList = some k := by
    intro k
    have hdigits := Text.readDigits?_natDigits k
    unfold Text.readDigits? at hdigits
    rw [if_neg (by simpa using Text.natDigits_ne_nil k)] at hdigits
    rw [toList_threeDigits, Text.digitsValue?_replicate_zero, hdigits]
  have hm := hread m
  rw [hsame, hread n] at hm
  exact (Option.some.inj hm).symm

theorem isDigit_of_mem_threeDigits {n : Nat} {c : Char} (hc : c ∈ (threeDigits n).toList) :
    c.isDigit = true := by
  rw [toList_threeDigits, List.mem_append] at hc
  rcases hc with hzero | hdigit
  · rw [List.eq_of_mem_replicate hzero]
    rfl
  · exact Text.isDigit_of_mem_natDigits hdigit

def recordName (number : Nat) : String :=
  threeDigits number ++ ".query"

def recordPath (directory : String) (number : Nat) : String :=
  joinPath directory (recordName number)

theorem toList_recordName (number : Nat) :
    (recordName number).toList = (threeDigits number).toList ++ ".query".toList :=
  String.toList_append

theorem recordName_injective : Function.Injective recordName := by
  intro m n hsame
  exact threeDigits_injective ((String.append_left_inj ".query").mp hsame)

theorem recordName_fileName (number : Nat) : FileName (recordName number) where
  no_slash := by
    rw [toList_recordName, List.mem_append]
    rintro (hdigit | hletter)
    · have hslash := isDigit_of_mem_threeDigits hdigit
      revert hslash
      decide
    · revert hletter
      decide +kernel
  solid := by
    refine ⟨'q', ?_, by decide⟩
    rw [toList_recordName, List.mem_append]
    right
    decide +kernel

/-- The records of a directory lead to their names, with one and the same text in front. -/
theorem recordPath_leadsTo (directory : String) :
    ∃ last, ∀ number,
      FileTree.LeadsTo (recordPath directory number) (last ++ recordName number) := by
  obtain ⟨front, hfront⟩ := joinPath_eq_append directory
  obtain ⟨last, hlast⟩ := FileTree.leadsTo_append front
  refine ⟨last, ?_⟩
  intro number
  have hname := recordName_fileName number
  unfold recordPath
  rw [hfront (recordName number) hname.no_slash]
  exact hlast (recordName number) hname

theorem recordPath_injective (directory : String) : Function.Injective (recordPath directory) := by
  intro m n hsame
  obtain ⟨last, hleads⟩ := recordPath_leadsTo directory
  have hm := (hleads m).last
  rw [hsame, (hleads n).last, Option.some.injEq, String.append_right_inj] at hm
  exact recordName_injective hm.symm

/-- All records in a directory are kept. -/
def KeepsRecords (directory : String) (tree next : FileTree) : Prop :=
  ∀ number, tree.Keeps next (recordPath directory number)

theorem KeepsRecords.refl (directory : String) (tree : FileTree) :
    KeepsRecords directory tree tree :=
  fun _ => .refl tree _

theorem KeepsRecords.trans {directory : String} {tree middle next : FileTree}
    (hfirst : KeepsRecords directory tree middle) (hsecond : KeepsRecords directory middle next) :
    KeepsRecords directory tree next :=
  fun number => (hfirst number).trans (hsecond number)

/-- A record keeps the others. -/
theorem keeps_record {directory : String} {number other : Nat} (hne : number ≠ other)
    (tree : FileTree) (text : String) :
    tree.Keeps (tree.tryWrite (recordPath directory other) text) (recordPath directory number) := by
  obtain ⟨last, hleads⟩ := recordPath_leadsTo directory
  apply (hleads number).keeps_tryWrite (hleads other)
  intro hsame
  exact hne (recordName_injective ((String.append_right_inj last).mp hsame))

/-- An ending of a file that is no record. -/
structure OtherEnding (ending : String) : Prop extends FileName ending where
  last : ∃ c, ending.toList.getLast? = some c ∧ c ≠ 'y'

theorem OtherEnding.leadsTo {ending : String} (hending : OtherEnding ending)
    (directory front : String) :
    ∃ label, FileTree.LeadsTo (joinPath directory (front ++ ending)) label ∧
      ∀ last number, last ++ recordName number ≠ label := by
  obtain ⟨whole, hwhole⟩ := joinPath_append directory front ending
  obtain ⟨last, hlast⟩ := FileTree.leadsTo_append whole
  rw [hwhole]
  refine ⟨last ++ ending, hlast ending hending.toFileName, ?_⟩
  intro other number hsame
  obtain ⟨c, hc, hne⟩ := hending.last
  have hlists := congrArg (fun s => s.toList.getLast?) hsame
  have hquery : ".query".toList.getLast? = some 'y' := by decide +kernel
  simp only [String.toList_append, toList_recordName, List.getLast?_append, hquery, hc] at hlists
  exact hne (by simpa using hlists.symm)

theorem OtherEnding.keeps_tryWrite {ending : String} (hending : OtherEnding ending)
    (directory front : String) (tree : FileTree) (text : String) :
    KeepsRecords directory tree (tree.tryWrite (joinPath directory (front ++ ending)) text) := by
  obtain ⟨last, hleads⟩ := recordPath_leadsTo directory
  obtain ⟨label, hlabel, hne⟩ := hending.leadsTo directory front
  intro number
  exact (hleads number).keeps_tryWrite hlabel (hne last number) tree text

theorem OtherEnding.keeps_write? {ending : String} (hending : OtherEnding ending)
    {directory front text : String} {tree next : FileTree}
    (hwrite : tree.write? (joinPath directory (front ++ ending)) text = some next) :
    KeepsRecords directory tree next := by
  obtain ⟨last, hleads⟩ := recordPath_leadsTo directory
  obtain ⟨label, hlabel, hne⟩ := hending.leadsTo directory front
  intro number
  exact (hleads number).keeps_write? hlabel (hne last number) hwrite

/-! ## What learners write besides -/

section Learners

variable {α : Type} [Scalar α] [Numeral α]

omit [Scalar α] in
theorem CausalGraph.writeListing_keepsRecords (g : CausalGraph α) (tree : FileTree)
    (directory : String) : KeepsRecords directory tree (g.writeListing tree directory) := by
  have hgraph : OtherEnding ".causal.graph" :=
    ⟨⟨by decide +kernel, 'c', by decide +kernel⟩, 'h', by decide +kernel⟩
  have hpriors : OtherEnding ".priors.list" :=
    ⟨⟨by decide +kernel, 'p', by decide +kernel⟩, 't', by decide +kernel⟩
  exact (hgraph.keeps_tryWrite directory g.name tree g.adjacencyText).trans
    (hpriors.keeps_tryWrite directory g.name _ g.priorsText)

theorem ReplicaNetwork.create_keepsRecords (tree : FileTree) (directory name : String)
    (g : CausalGraph α) (repetitions : Nat) (bayesian : Bool) (limit : Nat)
    (options : SolverOptions α) :
    KeepsRecords directory tree
      (create tree directory name g repetitions bayesian limit options).2 := by
  have hnetwork : OtherEnding ".fg" :=
    ⟨⟨by decide +kernel, 'f', by decide +kernel⟩, 'g', by decide +kernel⟩
  unfold create
  split
  · exact .refl directory tree
  next compiled _ =>
    dsimp only
    unfold FactorGraph.write
    cases hwrite : tree.write? (joinPath directory (name ++ ".fg")) compiled.text with
    | none => exact .refl directory tree
    | some written =>
        have hkept : KeepsRecords directory tree written := hnetwork.keeps_write? hwrite
        dsimp only
        split
        · exact hkept
        · exact hkept

omit [Scalar α] [Numeral α] in
theorem LearnerContext.checkCancelled_files (w : Workspace) :
    (checkCancelled (α := α) w).2.files = w.files := by
  unfold checkCancelled
  split <;> rfl

theorem LearnerContext.createNetwork_keepsRecords (c : LearnerContext α) (w : Workspace)
    (name : String) (g : CausalGraph α) (repetitions : Nat) (bayesian : Bool) :
    KeepsRecords c.directory w.files
      (c.createNetwork w name g repetitions bayesian).2.files := by
  have hchecked := checkCancelled_files (α := α) w
  unfold createNetwork
  split
  next fault after hcheck =>
    rw [hcheck] at hchecked
    rw [← hchecked]
    exact .refl c.directory after.files
  next after hcheck =>
    rw [hcheck] at hchecked
    have hlisted : KeepsRecords c.directory w.files
        (if c.dumpArtifacts then g.writeListing after.files c.directory else after.files) := by
      rw [← hchecked]
      split
      · exact g.writeListing_keepsRecords after.files c.directory
      · exact .refl c.directory after.files
    dsimp only
    generalize (if c.dumpArtifacts then g.writeListing after.files c.directory
      else after.files) = files at hlisted
    have hcreated := ReplicaNetwork.create_keepsRecords files c.directory name g repetitions
      bayesian c.clauseLimit c.options
    split
    next network last hcreate =>
      rw [hcreate] at hcreated
      exact hlisted.trans hcreated
    next cause last hcreate =>
      rw [hcreate] at hcreated
      exact hlisted.trans hcreated

theorem IteratingLearner.writeRanking_keepsRecords {c : LearnerContext α}
    {n last : ReplicaNetwork α} {w after : Workspace} {number : String}
    (hlast : writeRanking c n w (number ++ ".local.list") = .ok (last, after)) :
    KeepsRecords c.directory w.files after.files := by
  have hranking : OtherEnding ".local.list" :=
    ⟨⟨by decide +kernel, 'l', by decide +kernel⟩, 't', by decide +kernel⟩
  obtain ⟨⟨ranking, asked⟩, _, hwritten⟩ := bind_eq_ok_iff.mp hlast
  cases hwritten
  exact hranking.keeps_tryWrite c.directory number w.files _

theorem IteratingLearner.infer_keepsRecords (l : IteratingLearner α) (w : Workspace)
    (batch : Batch) : KeepsRecords l.context.directory w.files (l.infer w batch).2.files := by
  have hcreated := l.context.createNetwork_keepsRecords w (threeDigits (l.updates + 1) ++ ".post")
    l.graph 0 true
  unfold infer
  dsimp only
  split
  next fault after hcreate => rwa [hcreate] at hcreated
  next network after hcreate =>
    rw [hcreate] at hcreated
    dsimp only at hcreated
    split
    · exact hcreated
    next bound _ =>
      split
      · exact hcreated
      next ranked last hranked =>
        have hlisted := hcreated.trans (writeRanking_keepsRecords hranked)
        split
        · exact hlisted
        · exact hlisted

theorem DifferentiatingLearner.observed_keepsRecords (l : DifferentiatingLearner α)
    (w : Workspace) (g : CausalGraph α) :
    KeepsRecords l.context.directory w.files (l.observed w g).2.files := by
  have hcreated := l.context.createNetwork_keepsRecords w (l.name ++ s!"_{l.rounds.length}") g 0
    false
  unfold observed
  split
  next fault after hcreate => rwa [hcreate] at hcreated
  next network after hcreate => rwa [hcreate] at hcreated

theorem DifferentiatingLearner.refresh_keepsRecords (l : DifferentiatingLearner α)
    (w : Workspace) : KeepsRecords l.context.directory w.files (l.refresh w).2.2.files := by
  have hchecked := LearnerContext.checkCancelled_files (α := α) w
  unfold refresh
  split
  · exact .refl l.context.directory w.files
  · split
    next fault after hcheck =>
      rw [hcheck] at hchecked
      rw [← hchecked]
      exact .refl l.context.directory after.files
    next after hcheck =>
      rw [hcheck] at hchecked
      rw [← hchecked]
      cases l.differentiate with
      | error fault => exact .refl l.context.directory after.files
      | ok g =>
          have hobserved := observed_keepsRecords { l with network := none } after g
          cases hlast : observed { l with network := none } after g with
          | mk answer last =>
              rw [hlast] at hobserved
              cases answer with
              | error fault => simpa only [hlast] using hobserved
              | ok network => simpa only [hlast] using hobserved

end Learners

/-! ## What a network notes -/

variable {α : Type}

/-- The lines of a record: one for each node that was answered for, in the order of the first
answers, with the last answer of each. -/
structure LinesOf (answers lines : List (Nat × α)) : Prop where
  nodes : lines.map Prod.fst = Arrival.distinct (answers.map Prod.fst)
  latest : ∀ line ∈ lines, (Arrival.valuesOf answers line.1).getLast? = some line.2

theorem LinesOf.putAll (answers : List (Nat × α)) :
    LinesOf answers (Arrival.putAll [] answers) where
  nodes := Arrival.keys_putAll [] answers
  latest := by
    rintro ⟨node, p⟩ hline
    have hkeys : ((Arrival.putAll [] answers).map Prod.fst).Nodup :=
      Arrival.keys_putAll_nodup (by simp) answers
    have hget := (Arrival.get?_eq_some_iff hkeys).mpr hline
    rwa [Arrival.get?_putAll, Arrival.get?, Option.or_none] at hget

/-- What an answer adds to the answers so far. -/
def noted {ε : Type} (node : Nat) : Except ε α → List (Nat × α)
  | .ok p => [(node, p)]
  | .error _ => []

section Text

variable [Numeral α]

/-- The text of a record. -/
def recordText (lines : List (Nat × α)) : String :=
  String.join (lines.map (fun line => s!"{line.1}\t" ++ Numeral.text line.2 ++ "\n"))

end Text

namespace ReplicaNetwork

variable {n next : ReplicaNetwork α} {answers : List (Nat × α)}

/-- The network has given these answers, in this order. -/
def Answered (n : ReplicaNetwork α) (answers : List (Nat × α)) : Prop :=
  n.queries = Arrival.putAll [] answers

theorem Answered.of_queries (hn : n.Answered answers) (hqueries : next.queries = n.queries) :
    next.Answered answers :=
  hqueries.trans hn

section Inference

variable [Scalar α]

theorem activate_queries (hnext : n.activate = .ok next) : next.queries = n.queries := by
  unfold activate at hnext
  split at hnext
  · cases hnext
    rfl
  · obtain ⟨backend, _, hnext⟩ := bind_eq_ok_iff.mp hnext
    split at hnext
    · cases hnext
      rfl
    · cases hnext

theorem Answered.predict (hn : n.Answered answers) (node : Nat) :
    (n.predict node).2.Answered (answers ++ noted node (n.predict node).1) := by
  have hput : ∀ p, Arrival.putAll [] (answers ++ [(node, p)]) =
      Arrival.put (Arrival.putAll [] answers) node p := by
    intro p
    simp [Arrival.putAll, List.foldl_append]
  -- Without an answer nothing is noted.
  have hsilent : ∀ {m : ReplicaNetwork α} (fault : NetworkFault), m.queries = n.queries →
      m.Answered (answers ++ noted node (.error fault)) := by
    intro m fault hm
    rw [noted, List.append_nil]
    exact hn.of_queries hm
  unfold ReplicaNetwork.predict
  split
  next fault _ => exact hsilent fault rfl
  next =>
    split
    next fault _ => exact hsilent fault rfl
    next active hactive =>
      have hsame := activate_queries hactive
      split
      next fault _ => exact hsilent fault hsame
      next backend _ =>
        split
        next p after _ =>
          unfold Answered noted
          rw [hput, ← hn, ← hsame]
        next cause after _ => exact hsilent (.solver cause) hsame

theorem posterior_queries (n : ReplicaNetwork α) (dist : Nat) :
    (n.posterior dist).2.queries = n.queries := by
  unfold posterior
  split
  · rfl
  · split
    · rfl
    next active hactive =>
      have hsame := activate_queries hactive
      split
      · exact hsame
      · split
        · exact hsame
        · exact hsame

theorem updatedDists_queries (n : ReplicaNetwork α) (entries : List (Distribution α × Nat)) :
    (n.updatedDists entries).2.queries = n.queries := by
  induction entries generalizing n with
  | nil => rfl
  | cons entry entries ih =>
      have hfirst := n.posterior_queries entry.2
      unfold updatedDists
      split
      next cause after hposterior => rwa [hposterior] at hfirst
      next belief after hposterior =>
        rw [hposterior] at hfirst
        split
        · exact hfirst
        · have hrest := (ih after).trans hfirst
          split
          next fault last hmore => rwa [hmore] at hrest
          next more last hmore => rwa [hmore] at hrest

theorem updateGraph_queries (n : ReplicaNetwork α) (g : CausalGraph α) :
    (n.updateGraph g).2.queries = n.queries := by
  have hdists := n.updatedDists_queries g.dists.zipIdx
  unfold updateGraph
  split
  next dists after hupdated => rwa [hupdated] at hdists
  next fault after hupdated => rwa [hupdated] at hdists

omit [Scalar α] in
theorem observe_queries {node time : Nat} {value : Bool}
    (hnext : n.observe node time value = .ok next) : next.queries = n.queries := by
  obtain ⟨_, _, _, backend, hbackend⟩ := observe_inversion hnext
  obtain ⟨bound, _, rfl⟩ := observe_ok hbackend hnext
  rfl

omit [Scalar α] in
theorem bindBatch_queries {batch : Batch} {time : Nat}
    (hnext : n.bindBatch batch time = .ok next) : next.queries = n.queries := by
  refine foldlM_keeps (fun m => m.queries = n.queries) ?_ rfl hnext
  intro m entry bound hm hbound
  cases hobserve : m.observe entry.1 time entry.2 with
  | error cause =>
      rw [hobserve] at hbound
      cases hbound
  | ok observed =>
      rw [hobserve] at hbound
      cases hbound
      exact (observe_queries hobserve).trans hm

theorem Answered.predictAll (hn : n.Answered answers) {asked : List (Nat × String)}
    {ranking : List (Nat × α × String)}
    (hranking : IteratingLearner.predictAll n asked = .ok (ranking, next)) :
    next.Answered (answers ++ ranking.map (fun entry => (entry.1, entry.2.1))) := by
  induction asked generalizing n answers ranking with
  | nil =>
      cases hranking
      simpa using hn
  | cons entry asked ih =>
      have hfirst := hn.predict entry.1
      unfold IteratingLearner.predictAll at hranking
      cases hpredict : n.predict entry.1 with
      | mk answer after =>
          rw [hpredict] at hranking hfirst
          cases answer with
          | error cause => cases hranking
          | ok p =>
              obtain ⟨⟨more, last⟩, hmore, hlast⟩ := bind_eq_ok_iff.mp hranking
              cases hlast
              have hrest := ih hfirst hmore
              rwa [noted, List.append_assoc] at hrest

end Inference

end ReplicaNetwork

end DerivationBelief

import DerivationBelief.ProvenanceDictionary
import DerivationBelief.Proofs.ArrivalLookups
import DerivationBelief.Proofs.ClauseLines
import DerivationBelief.Proofs.FactGraphs
import DerivationBelief.Proofs.FileNames
import Mathlib.Tactic

/-!
# Descriptions of rules

A feed describes its rules in a list, and a clause names its rule by the place in this list.  The
builder keeps every text once, in order of arrival.  So a text that comes again takes no place, and
all rules from there on move up: a rule is described by its own text exactly when the texts up to
its own are different.
-/

namespace DerivationBelief

namespace Provenance

variable {p : Provenance}

/-! ## Lines of dictionaries -/

/-- A text under an identifier. -/
def entryLine (id : ProvenanceId) (text : String) : String :=
  id.text ++ ":\t" ++ text

theorem cutAt?_entryLine (id : ProvenanceId) (text : String) :
    cutAt? [':', '\t'] (entryLine id text).toList = some (id.chars, text.toList) := by
  have hline : (entryLine id text).toList = id.chars ++ ([':', '\t'] ++ text.toList) := by
    unfold entryLine ProvenanceId.text
    rw [String.toList_append, String.toList_append, String.toList_ofList, List.append_assoc]
    rfl
  rw [hline]
  exact cutAt?_append (ProvenanceId.not_mem_chars (by decide)) ['\t'] text.toList

theorem entryLine_inj {id other : ProvenanceId} {text otherText : String} :
    entryLine id text = entryLine other otherText ↔ id = other ∧ text = otherText := by
  constructor
  · intro hsame
    have hcut := cutAt?_entryLine id text
    rw [hsame, cutAt?_entryLine, Option.some_inj, Prod.mk.injEq] at hcut
    exact ⟨ProvenanceId.chars_injective hcut.1.symm, String.toList_injective hcut.2.symm⟩
  · rintro ⟨rfl, rfl⟩
    rfl

theorem mem_entryLines_iff {name : Nat → ProvenanceId} (hname : Function.Injective name)
    {texts : List String} {k : Nat} {text : String} :
    entryLine (name k) text ∈ entryLines name texts ↔ texts[k]? = some text := by
  unfold entryLines
  rw [List.mem_map]
  constructor
  · rintro ⟨⟨other, j⟩, hentry, hsame⟩
    obtain ⟨hid, rfl⟩ := entryLine_inj.mp hsame
    cases hname hid
    exact List.mem_zipIdx_iff_getElem?.mp hentry
  · intro htext
    exact ⟨(text, k), List.mem_zipIdx_iff_getElem?.mpr htext, rfl⟩

theorem Numbered.clauseLines_eq (hp : p.Numbered) : p.clauseLines =
    .ok (p.clauses.zipIdx.map (fun entry => (p.encodeClause entry.2 entry.1).text)) := by
  unfold clauseLines
  rw [List.range_eq_range', ← List.zipIdx_map_snd 0 p.clauses, List.mapM_map]
  exact mapM_answered (fun entry hentry =>
    hp.clauseDetail_eq (List.mem_zipIdx_iff_getElem?.mp hentry))

/-! ## Files of dictionaries -/

/-- The four files have the lines of the four dictionaries. -/
structure DictionariesIn (p : Provenance) (tree : FileTree) (directory : String) : Prop where
  tuples : tree.read? (joinPath directory tupleFile) = some (textOfLines p.tupleLines)
  rules : tree.read? (joinPath directory ruleFile) = some (textOfLines p.ruleLines)
  clauses : ∃ lines, p.clauseLines = .ok lines ∧
    tree.read? (joinPath directory clauseFile) = some (textOfLines lines)
  queries : tree.read? (joinPath directory queryFile) = some (textOfLines p.outputIds)

theorem writeDictionary_eq_ok_iff {tree next : FileTree} {directory name : String}
    {lines : List String} : writeDictionary tree directory name lines = .ok next ↔
      tree.write? (joinPath directory name) (textOfLines lines) = some next := by
  unfold writeDictionary
  dsimp only
  cases tree.write? (joinPath directory name) (textOfLines lines) <;> simp

theorem dictionary_written {tree next : FileTree} {directory name : String} {lines : List String}
    (hwrite : writeDictionary tree directory name lines = .ok next) :
    next.read? (joinPath directory name) = some (textOfLines lines) :=
  FileTree.read?_of_write? (writeDictionary_eq_ok_iff.mp hwrite)

/-- Writing one dictionary leaves the others as they are. -/
theorem dictionary_kept {tree next : FileTree} {directory name other : String}
    {lines : List String} (hname : FileName name) (hother : FileName other) (hne : name ≠ other)
    (hwrite : writeDictionary tree directory other lines = .ok next) :
    next.read? (joinPath directory name) = tree.read? (joinPath directory name) := by
  obtain ⟨front, hfront⟩ := joinPath_eq_append directory
  obtain ⟨last, hlast⟩ := FileTree.leadsTo_append front
  have hleads : ∀ {label}, FileName label →
      FileTree.LeadsTo (joinPath directory label) (last ++ label) := by
    intro label hlabel
    rw [hfront label hlabel.no_slash]
    exact hlast label hlabel
  have hapart : last ++ name ≠ last ++ other :=
    fun hsame => hne ((String.append_right_inj last).mp hsame)
  exact ((hleads hname).keeps_write? (hleads hother) hapart
    (writeDictionary_eq_ok_iff.mp hwrite)).read

theorem tupleFile_name : FileName tupleFile := ⟨by decide, 't', by decide, by decide⟩

theorem ruleFile_name : FileName ruleFile := ⟨by decide, 'r', by decide, by decide⟩

theorem clauseFile_name : FileName clauseFile := ⟨by decide, 'c', by decide, by decide⟩

theorem queryFile_name : FileName queryFile := ⟨by decide, 'b', by decide, by decide⟩

/-- A dump that succeeds has written the four files. -/
theorem dump_dictionaries {tree next : FileTree} {directory : String}
    (hdump : p.dump tree directory = .ok next) : p.DictionariesIn next directory := by
  unfold dump at hdump
  dsimp only at hdump
  by_cases hready : (!(tree.createDirectory directory).2) = true
  · rw [if_pos hready] at hdump
    cases hdump
  rw [if_neg hready] at hdump
  obtain ⟨first, hfirst, hdump⟩ := bind_eq_ok_iff.mp hdump
  obtain ⟨second, hsecond, hdump⟩ := bind_eq_ok_iff.mp hdump
  obtain ⟨lines, hlines, hdump⟩ := bind_eq_ok_iff.mp hdump
  obtain ⟨third, hthird, hlast⟩ := bind_eq_ok_iff.mp hdump
  constructor
  case tuples =>
    rw [dictionary_kept tupleFile_name queryFile_name (by decide) hlast,
      dictionary_kept tupleFile_name clauseFile_name (by decide) hthird,
      dictionary_kept tupleFile_name ruleFile_name (by decide) hsecond,
      dictionary_written hfirst]
  case rules =>
    rw [dictionary_kept ruleFile_name queryFile_name (by decide) hlast,
      dictionary_kept ruleFile_name clauseFile_name (by decide) hthird,
      dictionary_written hsecond]
  case clauses =>
    refine ⟨lines, hlines, ?_⟩
    rw [dictionary_kept clauseFile_name queryFile_name (by decide) hlast,
      dictionary_written hthird]
  case queries => exact dictionary_written hlast

/-! ## Rules under their own texts -/

/-- A provenance has the texts of the rules, each once.  A rule is described by its own text exactly
when the texts up to its own are different, and the same goes for the rule that the line of a clause
names. -/
structure DescribesRules (p : Provenance) (rules : List String) : Prop where
  once : p.rules = rules.eraseDups
  own_iff : ∀ (rule : Nat) (text : String), rules[rule]? = some text →
    (p.rules[rule]? = some text ↔ (rules.take (rule + 1)).Nodup)
  all_iff : (∀ (rule : Nat) (text : String), rules[rule]? = some text →
    p.rules[rule]? = some text) ↔ rules.Nodup
  line_iff : ∀ (rule : Nat) (text : String), rules[rule]? = some text →
    (entryLine (.rule rule) text ∈ p.ruleLines ↔ (rules.take (rule + 1)).Nodup)
  clause_lines : ∃ lines, p.clauseLines = .ok lines ∧ lines.length = p.clauses.length ∧
    ∀ k clause, p.clauses[k]? = some clause → ∃ line : ClauseLine,
      lines[k]? = some line.text ∧ line.number = k ∧ line.rule = clause.rule.toNat ∧
        (k < Text.word64 → ClauseLine.read? line.text = some line) ∧
        ∀ text, rules[line.rule]? = some text →
          (entryLine (.rule line.rule) text ∈ p.ruleLines ↔ (rules.take (line.rule + 1)).Nodup)

theorem Numbered.describesRules (hp : p.Numbered) {rules : List String}
    (hrules : p.rules = rules.eraseDups) : p.DescribesRules rules := by
  have hown : ∀ rule text, rules[rule]? = some text →
      (p.rules[rule]? = some text ↔ (rules.take (rule + 1)).Nodup) := by
    intro rule text htext
    rw [hrules]
    exact Arrival.getElem?_eraseDups_iff htext
  have hline : ∀ rule text, rules[rule]? = some text →
      (entryLine (.rule rule) text ∈ p.ruleLines ↔ (rules.take (rule + 1)).Nodup) := by
    intro rule text htext
    rw [← hown rule text htext]
    exact mem_entryLines_iff (fun _ _ => ProvenanceId.rule.inj)
  constructor
  case once => exact hrules
  case own_iff => exact hown
  case all_iff =>
    constructor
    · intro hall
      cases hlast : rules.getLast? with
      | none =>
          rw [List.getLast?_eq_none_iff.mp hlast]
          exact List.nodup_nil
      | some text =>
          have htext : rules[rules.length - 1]? = some text := by
            rw [← hlast, List.getLast?_eq_getElem?]
          have hnodup := (hown _ _ htext).mp (hall _ _ htext)
          rwa [List.take_of_length_le (by omega)] at hnodup
    · intro hnodup rule text htext
      exact (hown rule text htext).mpr (hnodup.sublist (List.take_sublist _ _))
  case line_iff => exact hline
  case clause_lines =>
    refine ⟨_, hp.clauseLines_eq, by rw [List.length_map, List.length_zipIdx], ?_⟩
    intro k clause hclause
    refine ⟨p.encodeClause k clause, ?_, rfl, rfl,
      fun hk => (hp.encodeClause_plain hclause hk).read?_text, hline clause.rule.toNat⟩
    rw [List.getElem?_map, List.getElem?_zipIdx, hclause]
    simp only [Option.map_some, Nat.zero_add]

end Provenance

/-! ## Rules of a feed -/

namespace ProvenanceBuilder

theorem rules_addClauses (b : ProvenanceBuilder) (clauses : List GroundClause) :
    (b.addClauses clauses).rules = b.rules := by
  induction clauses generalizing b with
  | nil => rfl
  | cons c clauses ih => exact ih (b.addClause c)

theorem rules_ofFeed (name : String) (prune augment : Bool) (feed : FactFeed) :
    (ofFeed name prune augment feed).rules = feed.rules.eraseDups :=
  (rules_addClauses _ feed.clauses).trans (Arrival.distinct_eq_eraseDups feed.rules)

/-- Whatever the feed is, a rule of its provenance is described by its own text exactly when the
texts up to its own are different, in the provenance as in the files that are dumped; all rules are
exactly when no text comes twice. -/
theorem described_iff_nodup (name : String) (prune augment : Bool) (feed : FactFeed) :
    ∃ p, (ofFeed name prune augment feed).compute.provenance = .ok p ∧
      p.DescribesRules feed.rules ∧
      ∀ tree directory next, p.dump tree directory = .ok next →
        p.DictionariesIn next directory := by
  have hp := (ofFeed_listed name prune augment feed).provenanceFor_numbered
    (ofFeed name prune augment feed).outputs
  exact ⟨_, rfl, hp.describesRules (rules_ofFeed name prune augment feed),
    fun _ _ _ => Provenance.dump_dictionaries⟩

/-! ### Two rules with one text -/

open ClausePruner (letter)

/-- The first two rules have the same text, the only clause is of the third one. -/
def sharedFeed : FactFeed :=
  { clauses := [.positive 2 (letter "A") [letter "B"]]
    inputs := [letter "B"]
    outputs := [letter "A"]
    rules := ["shared", "shared", "own"] }

def sharedProvenance : Provenance :=
  { name := "shared"
    clauses := sharedFeed.clauses
    inputs := [letter "B"]
    outputs := [letter "A"]
    hidden := []
    tupleIds := [(letter "B", .input 0), (letter "A", .output 0)]
    rules := ["shared", "own"] }

theorem sharedFeed_provenance :
    (ofFeed "shared" false false sharedFeed).compute.provenance = .ok sharedProvenance := by
  decide +kernel

/-- The first rule is described by its own text. -/
theorem sharedFeed_described :
    sharedProvenance.DescribesRules sharedFeed.rules ∧
      sharedProvenance.rules[0]? = sharedFeed.rules[0]? := by
  obtain ⟨p, hp, hrules, _⟩ := described_iff_nodup "shared" false false sharedFeed
  cases hp.symm.trans sharedFeed_provenance
  exact ⟨hrules, (hrules.own_iff 0 "shared" rfl).mpr (by decide)⟩

/-- The clause names the third rule, whose text is described under the second one. -/
theorem sharedFeed_misdescribed :
    (ofFeed "shared" false false sharedFeed).compute.provenance = .ok sharedProvenance ∧
      sharedFeed.rules[1]? = some "shared" ∧ sharedProvenance.rules[1]? = some "own" ∧
      sharedFeed.rules[2]? = some "own" ∧ sharedProvenance.rules[2]? = none ∧
      sharedProvenance.clauseLines = .ok ["R2-D0 : O0=I0"] ∧
      sharedProvenance.ruleLines = ["R0:\tshared", "R1:\town"] :=
  ⟨sharedFeed_provenance, rfl, rfl, rfl, rfl, by decide +kernel, by decide +kernel⟩

end ProvenanceBuilder

end DerivationBelief

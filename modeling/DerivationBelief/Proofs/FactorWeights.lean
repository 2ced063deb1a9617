import DerivationBelief.Factor
import DerivationBelief.Proofs.ExactFractions
import DerivationBelief.Proofs.MixedRadix
import Mathlib.Tactic

/-!
# Weights of the encodings

The weight of a factor under an assignment is its last entry for the state of its variables.  A
clause has weight one when its head has the value that its body and its control give it, and zero
otherwise.  A Bernoulli factor weighs truth with the value of its parameter and falsehood with the
rest, and a categorical factor weighs a state with its probability.
-/

namespace DerivationBelief

/-! ## The last entry of a state -/

/-- The weight that a list of entries gives to a state: the last entry counts. -/
def entryWeight (entries : List (Nat × ℚ)) (state : Nat) : ℚ :=
  entries.foldl (fun weight entry => if entry.1 = state then entry.2 else weight) 0

theorem foldl_of_other_states {entries : List (Nat × ℚ)} {state : Nat}
    (hother : ∀ entry ∈ entries, entry.1 ≠ state) (weight : ℚ) :
    entries.foldl (fun weight entry => if entry.1 = state then entry.2 else weight) weight =
      weight := by
  induction entries generalizing weight with
  | nil => rfl
  | cons entry entries ih =>
      rw [List.forall_mem_cons] at hother
      rw [List.foldl_cons, if_neg hother.1, ih hother.2]

theorem entryWeight_append_left {entries others : List (Nat × ℚ)} {state : Nat}
    (hothers : ∀ entry ∈ others, entry.1 ≠ state) :
    entryWeight (entries ++ others) state = entryWeight entries state := by
  unfold entryWeight
  rw [List.foldl_append, foldl_of_other_states hothers]

theorem entryWeight_append_right {entries others : List (Nat × ℚ)} {state : Nat}
    (hentries : ∀ entry ∈ entries, entry.1 ≠ state) :
    entryWeight (entries ++ others) state = entryWeight others state := by
  unfold entryWeight
  rw [List.foldl_append, foldl_of_other_states hentries]

/-- Of entries in blocks, only the block that has the state counts. -/
theorem entryWeight_block {β : Type} {items : List β} (block : β → Nat → List (Nat × ℚ))
    {state start place : Nat} {item : β} (hitem : items[place]? = some item)
    (hother : ∀ x k, k ≠ start + place → ∀ entry ∈ block x k, entry.1 ≠ state) :
    entryWeight ((items.zipIdx start).flatMap (fun e => block e.1 e.2)) state =
      entryWeight (block item (start + place)) state := by
  induction items generalizing start place with
  | nil => cases hitem
  | cons x items ih =>
      rw [List.zipIdx_cons, List.flatMap_cons]
      cases place with
      | zero =>
          rw [List.getElem?_cons_zero, Option.some.injEq] at hitem
          subst x
          apply entryWeight_append_left
          intro entry hentry
          obtain ⟨⟨y, k⟩, hy, hblock⟩ := List.mem_flatMap.mp hentry
          have hlater := List.le_snd_of_mem_zipIdx hy
          exact hother y k (by omega) entry hblock
      | succ place =>
          rw [List.getElem?_cons_succ] at hitem
          rw [entryWeight_append_right (hother x start (by omega))]
          have hshift : start + (place + 1) = start + 1 + place := by omega
          rw [hshift] at hother ⊢
          exact ih hitem hother

theorem entryWeight_of_ones {entries : List (Nat × ℚ)} (hones : ∀ entry ∈ entries, entry.2 = 1)
    (state : Nat) :
    entryWeight entries state = if state ∈ entries.map Prod.fst then 1 else 0 := by
  induction entries using List.reverseRecOn with
  | nil => rfl
  | append_singleton entries entry ih =>
      have hlast : entry.2 = 1 := hones entry (by simp)
      have hrest := ih fun e he => hones e (List.mem_append_left _ he)
      by_cases hstate : entry.1 = state
      · simp [entryWeight, hstate, hlast]
      · have hmem : state ∈ (entries ++ [entry]).map Prod.fst ↔ state ∈ entries.map Prod.fst := by
          rw [List.map_append, List.mem_append, List.map_singleton, List.mem_singleton]
          exact or_iff_left (Ne.symm hstate)
        rw [entryWeight_append_left (by simpa using hstate), hrest]
        exact if_congr hmem.symm rfl rfl

/-! ## Weights of factors -/

namespace Factor

variable {ν μ : Type}

def weightAt (f : Factor ν ℚ) (a : ν → Nat) : ℚ :=
  entryWeight f.entries (jointIndex f.cards (f.vars.map a))

theorem weightAt_mapVars (rename : ν → μ) (f : Factor ν ℚ) (a : μ → Nat) :
    (f.mapVars rename).weightAt a = f.weightAt (a ∘ rename) := by
  unfold weightAt mapVars
  rw [List.map_map]

theorem weightAt_congr {f : Factor ν ℚ} {a b : ν → Nat} (hsame : ∀ v ∈ f.vars, a v = b v) :
    f.weightAt a = f.weightAt b := by
  unfold weightAt
  rw [List.map_congr_left hsame]

theorem categorical_weightAt {var : ν} {weights : List ℚ} {a : ν → Nat}
    (hstate : a var < weights.length) :
    (categorical var weights).weightAt a = weights.getD (a var) 0 := by
  have hblock : entryWeight (weights.zipIdx.flatMap (fun e => [(e.2, e.1)])) (a var) =
      entryWeight [(0 + a var, weights[a var])] (a var) := by
    apply entryWeight_block (fun w k => [(k, w)]) (List.getElem?_eq_getElem hstate)
    intro w k hk entry hentry
    rw [List.mem_singleton.mp hentry]
    omega
  have hentries : weights.zipIdx.map (fun entry => (entry.2, entry.1)) =
      weights.zipIdx.flatMap (fun e => [(e.2, e.1)]) := List.map_eq_flatMap
  unfold weightAt categorical
  dsimp only
  rw [hentries]
  simpa [jointIndex, entryWeight, hstate] using hblock

/-- The chance of a truth value when truth has the given chance. -/
def chance (truth : ℚ) (value : Bool) : ℚ :=
  if value then truth else 1 - truth

theorem bernoulliEntries_weight {support : ℚ} (hlow : 0 ≤ support) (hhigh : support ≤ 1)
    {bit k : Nat} (hbit : bit < 2) :
    entryWeight (bernoulliEntries k support) (bit + 2 * k) =
      chance support (decide (bit = 1)) := by
  simp only [bernoulliEntries, Scalar.isPositive_iff]
  rcases (by omega : bit = 0 ∨ bit = 1) with rfl | rfl
  · by_cases hrest : 0 < 1 - support
    · by_cases hpositive : 0 < support <;>
        simp [entryWeight, chance, hrest, hpositive]
    · have hone : support = 1 := by linarith
      simp [entryWeight, chance, hone]
  · by_cases hpositive : 0 < support
    · by_cases hrest : 0 < 1 - support <;>
        simp [entryWeight, chance, hrest, hpositive, add_comm]
    · have hzero : support = 0 := by linarith
      simp [entryWeight, chance, hzero]

theorem mem_bernoulliEntries {α : Type} [Scalar α] {k : Nat} {support : α} {entry : Nat × α}
    (hentry : entry ∈ bernoulliEntries k support) : entry.1 = 2 * k ∨ entry.1 = 2 * k + 1 := by
  rcases List.mem_append.mp hentry with hfirst | hsecond
  · left
    split at hfirst
    · rw [List.mem_singleton.mp hfirst]
    · cases hfirst
  · right
    split at hsecond
    · rw [List.mem_singleton.mp hsecond]
    · cases hsecond

theorem bernoulli_weightAt {var param : ν} {supports : List ℚ} {a : ν → Nat} {support : ℚ}
    (hvar : a var < 2) (hsupport : supports[a param]? = some support) (hlow : 0 ≤ support)
    (hhigh : support ≤ 1) :
    (bernoulli var param supports).weightAt a = chance support (decide (a var = 1)) := by
  have hblock : entryWeight (supports.zipIdx.flatMap (fun e => bernoulliEntries e.2 e.1))
      (a var + 2 * a param) =
        entryWeight (bernoulliEntries (0 + a param) support) (a var + 2 * a param) := by
    apply entryWeight_block (fun x k => bernoulliEntries k x) hsupport
    intro x k hk entry hentry
    rcases mem_bernoulliEntries hentry with hstate | hstate <;> omega
  rw [zero_add, bernoulliEntries_weight hlow hhigh hvar] at hblock
  rw [← hblock]
  simp [weightAt, bernoulli, jointIndex]

theorem constantTrue_weightAt {var : ν} {a : ν → Nat} (hvar : a var < 2) :
    (constantTrue var : Factor ν ℚ).weightAt a = chance 1 (decide (a var = 1)) := by
  rcases (by omega : a var = 0 ∨ a var = 1) with hvalue | hvalue <;>
    simp [weightAt, constantTrue, jointIndex, entryWeight, chance, hvalue]

end Factor

/-! ## Clauses -/

def Connective.value (connective : Connective) (bits : List Nat) : Bool :=
  match connective with
  | .any => bits.any (· = 1)
  | .all => bits.all (· = 1)

def bitIndex (bits : List Nat) : Nat :=
  jointIndex (bits.map (fun _ => 2)) bits

theorem bitIndex_cons (bit : Nat) (bits : List Nat) :
    bitIndex (bit :: bits) = bit + 2 * bitIndex bits :=
  rfl

theorem bitIndex_lt {bits : List Nat} (hbits : ∀ bit ∈ bits, bit < 2) :
    bitIndex bits < Nat.pow 2 bits.length := by
  induction bits with
  | nil => simp [bitIndex, jointIndex]
  | cons bit bits ih =>
      rw [List.forall_mem_cons] at hbits
      have hrest := ih hbits.2
      rw [bitIndex_cons, List.length_cons, Nat.pow_eq, Nat.pow_succ]
      rw [Nat.pow_eq] at hrest
      omega

theorem bitIndex_eq_zero_iff (bits : List Nat) : bitIndex bits = 0 ↔ ∀ bit ∈ bits, bit = 0 := by
  induction bits with
  | nil => simp [bitIndex, jointIndex]
  | cons bit bits ih =>
      rw [bitIndex_cons, List.forall_mem_cons, ← ih]
      omega

theorem bitIndex_eq_max_iff {bits : List Nat} (hbits : ∀ bit ∈ bits, bit < 2) :
    bitIndex bits = Nat.pow 2 bits.length - 1 ↔ ∀ bit ∈ bits, bit = 1 := by
  induction bits with
  | nil => simp [bitIndex, jointIndex]
  | cons bit bits ih =>
      rw [List.forall_mem_cons] at hbits
      have hlt := bitIndex_lt hbits.2
      rw [bitIndex_cons, List.forall_mem_cons, ← ih hbits.2, List.length_cons, Nat.pow_eq,
        Nat.pow_eq, Nat.pow_succ]
      rw [Nat.pow_eq] at hlt
      omega

/-- A connective holds at the number of a joint state when it holds of the bits. -/
theorem holds_bitIndex (connective : Connective) {bits : List Nat}
    (hbits : ∀ bit ∈ bits, bit < 2) :
    connective.holds bits.length (bitIndex bits) = connective.value bits := by
  rw [Bool.eq_iff_iff]
  cases connective with
  | any =>
      simp only [Connective.holds, Connective.value, decide_eq_true_eq, List.any_eq_true]
      rw [Ne, bitIndex_eq_zero_iff, not_forall]
      constructor
      · rintro ⟨bit, hne⟩
        rw [Classical.not_imp] at hne
        have hlt := hbits bit hne.1
        exact ⟨bit, hne.1, by omega⟩
      · rintro ⟨bit, hmem, hone⟩
        exact ⟨bit, fun hzero => Nat.one_ne_zero (hone.symm.trans (hzero hmem))⟩
  | all =>
      simp only [Connective.holds, Connective.value, decide_eq_true_eq, List.all_eq_true]
      exact bitIndex_eq_max_iff hbits

/-- Truth where a value is as expected. -/
def agreement (value expected : Bool) : ℚ :=
  if value = expected then 1 else 0

namespace Factor

variable {ν : Type}

theorem clauseEntries_ones {gated value : Bool} {state : Nat} {entry : Nat × ℚ}
    (hentry : entry ∈ clauseEntries gated value state) : entry.2 = 1 := by
  cases gated with
  | false => rw [List.mem_singleton.mp hentry]
  | true =>
      rcases List.mem_cons.mp hentry with hfirst | hsecond
      · rw [hfirst]
      · rw [List.mem_singleton.mp hsecond]

/-- The joint states that a clause lists for a state of its body. -/
def bodyStates (gated value : Bool) (state : Nat) : List Nat :=
  if gated then [4 * state, 4 * state + 2 + value.toNat] else [2 * state + value.toNat]

theorem clauseEntries_states {α : Type} [Scalar α] (gated value : Bool) (state : Nat) :
    (clauseEntries gated value state : List (Nat × α)).map Prod.fst =
      bodyStates gated value state := by
  cases gated <;> rfl

def clauseStates (gated : Bool) (holds : Nat → Bool) (count : Nat) : List Nat :=
  (List.range count).flatMap (fun s =>
    (clauseEntries gated (holds s) s : List (Nat × ℚ)).map Prod.fst)

theorem clauseStates_eq (gated : Bool) (holds : Nat → Bool) (count : Nat) :
    clauseStates gated holds count =
      (List.range count).flatMap (fun s => bodyStates gated (holds s) s) := by
  unfold clauseStates
  simp only [clauseEntries_states]

theorem clause_states {α : Type} [Scalar α] (connective : Connective) (head : ν)
    (control : Option ν) (body : List ν) :
    (clause connective head control body : Factor ν α).entries.map Prod.fst =
      clauseStates control.isSome (connective.holds body.length) (Nat.pow 2 body.length) := by
  rw [clauseStates_eq]
  simp only [clause, List.map_flatMap, clauseEntries_states]

theorem mem_clauseStates_open {holds : Nat → Bool} {count state bit : Nat}
    (hstate : state < count) (hbit : bit < 2) :
    bit + 2 * state ∈ clauseStates false holds count ↔ decide (bit = 1) = holds state := by
  have hbool : (holds state).toNat = bit ↔ decide (bit = 1) = holds state := by
    rcases (by omega : bit = 0 ∨ bit = 1) with rfl | rfl <;> cases holds state <;> simp
  rw [← hbool]
  simp only [clauseStates_eq, List.mem_flatMap, List.mem_range, bodyStates, List.mem_singleton,
    Bool.false_eq_true, if_false]
  constructor
  · rintro ⟨s, _, heq⟩
    have hle := Bool.toNat_le (holds s)
    have hsame : s = state := by omega
    subst s
    omega
  · rintro rfl
    exact ⟨state, hstate, by omega⟩

theorem mem_clauseStates_gated {holds : Nat → Bool} {count state bit gate : Nat}
    (hstate : state < count) (hbit : bit < 2) (hgate : gate < 2) :
    bit + 2 * (gate + 2 * state) ∈ clauseStates true holds count ↔
      decide (bit = 1) = (decide (gate = 1) && holds state) := by
  have hbool : (gate = 0 ∧ bit = 0 ∨ gate = 1 ∧ (holds state).toNat = bit) ↔
      decide (bit = 1) = (decide (gate = 1) && holds state) := by
    rcases (by omega : bit = 0 ∨ bit = 1) with rfl | rfl <;>
      rcases (by omega : gate = 0 ∨ gate = 1) with rfl | rfl <;> cases holds state <;> simp
  rw [← hbool]
  simp only [clauseStates_eq, List.mem_flatMap, List.mem_range, bodyStates, List.mem_cons,
    List.not_mem_nil, or_false, if_true]
  constructor
  · rintro ⟨s, _, hclosed | hopen⟩
    · omega
    · have hle := Bool.toNat_le (holds s)
      have hsame : s = state := by omega
      subst s
      omega
  · rintro (⟨rfl, rfl⟩ | ⟨rfl, rfl⟩)
    · exact ⟨state, hstate, Or.inl (by omega)⟩
    · exact ⟨state, hstate, Or.inr (by omega)⟩

theorem clause_weightAt_states (connective : Connective) (head : ν) (control : Option ν)
    (body : List ν) (a : ν → Nat) :
    (clause connective head control body : Factor ν ℚ).weightAt a =
      if bitIndex ((head :: (control.toList ++ body)).map a) ∈
        clauseStates control.isSome (connective.holds body.length) (Nat.pow 2 body.length)
      then 1 else 0 := by
  unfold weightAt
  rw [entryWeight_of_ones]
  · rw [clause_states]
    unfold clause bitIndex
    dsimp only
    rw [List.map_map]
    rfl
  · intro entry hentry
    obtain ⟨state, _, hstate⟩ := List.mem_flatMap.mp hentry
    exact clauseEntries_ones hstate

/-- The weight of a clause says whether the head has the value of its body behind its gate. -/
theorem clause_weightAt (connective : Connective) {head : ν} {control : Option ν} {body : List ν}
    {a : ν → Nat} (hhead : a head < 2) (hcontrol : ∀ c ∈ control, a c < 2)
    (hbody : ∀ s ∈ body, a s < 2) :
    (clause connective head control body : Factor ν ℚ).weightAt a =
      agreement (decide (a head = 1))
        (control.all (fun c => a c = 1) && connective.value (body.map a)) := by
  have hbits : ∀ bit ∈ body.map a, bit < 2 := by
    intro bit hbit
    obtain ⟨s, hs, rfl⟩ := List.mem_map.mp hbit
    exact hbody s hs
  have hlt := bitIndex_lt hbits
  have hholds := holds_bitIndex connective hbits
  rw [List.length_map] at hlt hholds
  rw [clause_weightAt_states, ← hholds]
  unfold agreement
  cases control with
  | none =>
      apply if_congr _ rfl rfl
      exact mem_clauseStates_open hlt hhead
  | some c =>
      apply if_congr _ rfl rfl
      exact mem_clauseStates_gated hlt hhead (hcontrol c rfl)

end Factor

end DerivationBelief

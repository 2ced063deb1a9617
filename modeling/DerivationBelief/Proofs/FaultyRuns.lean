import Mathlib.Tactic

/-!
# Runs that may fail

A run over a list stops at the first fault.  It succeeds when all of its steps do, and then keeps
what every step keeps.
-/

namespace DerivationBelief

variable {β γ δ ε : Type}

theorem bind_eq_ok_iff {answer : Except ε β} {next : β → Except ε γ} {c : γ} :
    answer >>= next = .ok c ↔ ∃ b, answer = .ok b ∧ next b = .ok c := by
  cases answer with
  | ok b =>
      constructor
      · intro hnext
        exact ⟨b, rfl, hnext⟩
      · rintro ⟨b, hb, hnext⟩
        cases hb
        exact hnext
  | error fault =>
      constructor
      · intro hfault
        cases hfault
      · rintro ⟨b, hb, _⟩
        cases hb

theorem bind_eq_error_iff {answer : Except ε β} {next : β → Except ε γ} {fault : ε} :
    answer >>= next = .error fault ↔
      answer = .error fault ∨ ∃ b, answer = .ok b ∧ next b = .error fault := by
  cases answer with
  | ok b =>
      constructor
      · intro hnext
        exact Or.inr ⟨b, rfl, hnext⟩
      · rintro (hfault | ⟨b, hb, hnext⟩)
        · cases hfault
        · cases hb
          exact hnext
  | error other =>
      constructor
      · intro hfault
        cases hfault
        exact Or.inl rfl
      · rintro (hfault | ⟨b, hb, _⟩)
        · cases hfault
          rfl
        · cases hb

theorem eq_ok_of_toOption {answer : Except ε β} {b : β} (hanswer : answer.toOption = some b) :
    answer = .ok b := by
  cases answer with
  | error fault => cases hanswer
  | ok c =>
      cases hanswer
      rfl

theorem foldlM_cons_eq_ok_iff {step : β → γ → Except ε β} {c : γ} {cs : List γ} {b last : β} :
    (c :: cs).foldlM step b = .ok last ↔
      ∃ next, step b c = .ok next ∧ cs.foldlM step next = .ok last := by
  rw [List.foldlM_cons]
  exact bind_eq_ok_iff

/-- A run whose steps all succeed succeeds, with what they leave one after another. -/
theorem foldlM_eq_ok (next : β → γ → β) {step : β → γ → Except ε β} {cs : List γ}
    (hstep : ∀ b, ∀ c ∈ cs, step b c = .ok (next b c)) (b : β) :
    cs.foldlM step b = .ok (cs.foldl next b) := by
  induction cs generalizing b with
  | nil => rfl
  | cons c cs ih =>
      rw [List.foldlM_cons, hstep b c List.mem_cons_self]
      exact ih (fun b d hd => hstep b d (List.mem_cons_of_mem c hd)) (next b c)

/-- What every step of a run that succeeds keeps, the run keeps. -/
theorem foldlM_keeps (keeps : β → Prop) {step : β → γ → Except ε β}
    (hstep : ∀ b c next, keeps b → step b c = .ok next → keeps next) {cs : List γ} {b last : β}
    (hb : keeps b) (hlast : cs.foldlM step b = .ok last) : keeps last := by
  induction cs generalizing b with
  | nil =>
      cases hlast
      exact hb
  | cons c cs ih =>
      obtain ⟨next, hnext, hrest⟩ := foldlM_cons_eq_ok_iff.mp hlast
      exact ih (hstep b c next hb hnext) hrest

/-- Every step of a run that succeeds has succeeded somewhere on the way. -/
theorem exists_of_foldlM_eq_ok {step : β → γ → Except ε β} {cs : List γ} {b last : β}
    (hlast : cs.foldlM step b = .ok last) : ∀ c ∈ cs, ∃ before after, step before c = .ok after := by
  induction cs generalizing b with
  | nil => exact fun c hc => absurd hc List.not_mem_nil
  | cons c cs ih =>
      obtain ⟨next, hnext, hrest⟩ := foldlM_cons_eq_ok_iff.mp hlast
      rw [List.forall_mem_cons]
      exact ⟨⟨b, next, hnext⟩, ih hrest⟩

/-- A run over a list succeeds when every step does, and answers element by element. -/
theorem mapM_ok {answers : γ → β → Prop} {step : γ → Except ε β} {cs : List γ}
    (hstep : ∀ c ∈ cs, ∃ b, step c = .ok b ∧ answers c b) :
    ∃ bs, cs.mapM step = .ok bs ∧ List.Forall₂ answers cs bs := by
  induction cs with
  | nil => exact ⟨[], rfl, List.Forall₂.nil⟩
  | cons c cs ih =>
      rw [List.forall_mem_cons] at hstep
      obtain ⟨b, hb, hanswer⟩ := hstep.1
      obtain ⟨bs, hbs, hanswers⟩ := ih hstep.2
      refine ⟨b :: bs, ?_, List.Forall₂.cons hanswer hanswers⟩
      rw [List.mapM_cons, hb, hbs]
      rfl

theorem mapM_answered {step : γ → Except ε β} {answer : γ → β} {cs : List γ}
    (hstep : ∀ c ∈ cs, step c = .ok (answer c)) : cs.mapM step = .ok (cs.map answer) := by
  induction cs with
  | nil => rfl
  | cons c cs ih =>
      rw [List.forall_mem_cons] at hstep
      rw [List.mapM_cons, hstep.1, ih hstep.2]
      rfl

/-- Reading what was written for each element gives the elements. -/
theorem mapM_written {write : β → γ} {read : γ → Except ε β} {bs : List β}
    (hread : ∀ b ∈ bs, read (write b) = .ok b) : (bs.map write).mapM read = .ok bs := by
  have hrun : bs.mapM (read ∘ write) = .ok (bs.map id) := mapM_answered hread
  rw [List.mapM_map, hrun, List.map_id]

/-- A run over a list that succeeds has answered each element. -/
theorem exists_of_mapM_eq_ok {step : γ → Except ε β} {cs : List γ} {bs : List β}
    (hbs : cs.mapM step = .ok bs) : ∀ c ∈ cs, ∃ b, step c = .ok b := by
  induction cs generalizing bs with
  | nil => exact fun c hc => absurd hc List.not_mem_nil
  | cons c cs ih =>
      rw [List.mapM_cons] at hbs
      obtain ⟨first, hfirst, hbs⟩ := bind_eq_ok_iff.mp hbs
      obtain ⟨rest, hrest, _⟩ := bind_eq_ok_iff.mp hbs
      rw [List.forall_mem_cons]
      exact ⟨⟨first, hfirst⟩, ih hrest⟩

/-- A property of whatever a step answers with is one of all answers of a run over a list. -/
theorem forall_mem_of_mapM_eq_ok {property : β → Prop} {step : γ → Except ε β} {cs : List γ}
    {bs : List β} (hstep : ∀ c b, step c = .ok b → property b) (hbs : cs.mapM step = .ok bs) :
    ∀ b ∈ bs, property b := by
  induction cs generalizing bs with
  | nil =>
      cases hbs
      exact List.forall_mem_nil property
  | cons c cs ih =>
      rw [List.mapM_cons] at hbs
      obtain ⟨first, hfirst, hbs⟩ := bind_eq_ok_iff.mp hbs
      obtain ⟨rest, hrest, hbs⟩ := bind_eq_ok_iff.mp hbs
      cases hbs
      rw [List.forall_mem_cons]
      exact ⟨hstep c first hfirst, ih hrest⟩

theorem mapM_eq_some_iff {step : γ → Option β} {cs : List γ} {bs : List β} :
    cs.mapM step = some bs ↔ List.Forall₂ (fun c b => step c = some b) cs bs := by
  constructor
  · intro hbs
    induction cs generalizing bs with
    | nil =>
        cases hbs
        exact List.Forall₂.nil
    | cons c cs ih =>
        rw [List.mapM_cons] at hbs
        obtain ⟨first, hfirst, hbs⟩ := Option.bind_eq_some_iff.mp hbs
        obtain ⟨rest, hrest, hbs⟩ := Option.bind_eq_some_iff.mp hbs
        cases hbs
        exact List.Forall₂.cons hfirst (ih hrest)
  · intro hbs
    induction hbs with
    | nil => rfl
    | cons hfirst _ ih =>
        rw [List.mapM_cons, hfirst, ih]
        rfl

theorem mapM_eq_some_map {step : γ → Option β} {answer : γ → β} {cs : List γ}
    (hstep : ∀ c ∈ cs, step c = some (answer c)) : cs.mapM step = some (cs.map answer) := by
  rw [mapM_eq_some_iff, List.forall₂_map_right_iff, List.forall₂_same]
  exact hstep

theorem forM_eq_ok_iff {check : γ → Except ε Unit} {cs : List γ} :
    cs.forM check = .ok () ↔ ∀ c ∈ cs, check c = .ok () := by
  induction cs with
  | nil =>
      constructor
      · simp
      · intro _
        rfl
  | cons c cs ih =>
      change (check c >>= fun _ => cs.forM check) = .ok () ↔ _
      rw [bind_eq_ok_iff, List.forall_mem_cons, ← ih]
      constructor
      · rintro ⟨_, hfirst, hrest⟩
        exact ⟨hfirst, hrest⟩
      · rintro ⟨hfirst, hrest⟩
        exact ⟨(), hfirst, hrest⟩

/-- A check that fails for a list fails for one of its elements. -/
theorem exists_of_forM_eq_error {check : γ → Except ε Unit} {cs : List γ} {fault : ε}
    (hfault : cs.forM check = .error fault) : ∃ c ∈ cs, check c = .error fault := by
  induction cs with
  | nil => cases hfault
  | cons c cs ih =>
      change (check c >>= fun _ => cs.forM check) = .error fault at hfault
      rcases bind_eq_error_iff.mp hfault with hfirst | ⟨_, _, hrest⟩
      · exact ⟨c, List.mem_cons_self, hfirst⟩
      · obtain ⟨d, hd, hcheck⟩ := ih hrest
        exact ⟨d, List.mem_cons_of_mem _ hd, hcheck⟩

end DerivationBelief

import DerivationBelief.ArrivalOrder
import Mathlib.Tactic

/-!
# Laws of collections in order of arrival

Membership and absence of repetitions for the sets, lookups for the maps.  A set built by arrival
holds exactly what arrived, once; a map answers with the value that was put last under a key, or with
all values in order when they are appended.
-/

namespace DerivationBelief.Arrival

section Sets

variable {κ : Type} [DecidableEq κ]

@[simp] theorem mem_insert {elements : List κ} {x y : κ} :
    y ∈ insert elements x ↔ y ∈ elements ∨ y = x := by
  unfold insert
  split
  next hmem =>
    constructor
    · exact Or.inl
    · rintro (hy | rfl)
      · exact hy
      · exact hmem
  next hnew => simp

theorem insert_nodup {elements : List κ} (hnodup : elements.Nodup) (x : κ) :
    (insert elements x).Nodup := by
  unfold insert
  split
  next hmem => exact hnodup
  next hnew =>
    rw [List.nodup_append]
    refine ⟨hnodup, List.nodup_singleton x, ?_⟩
    rintro y hy z hz rfl
    exact hnew (List.mem_singleton.mp hz ▸ hy)

@[simp] theorem mem_insertAll {elements news : List κ} {y : κ} :
    y ∈ insertAll elements news ↔ y ∈ elements ∨ y ∈ news := by
  induction news generalizing elements with
  | nil => simp [insertAll]
  | cons x news ih =>
      change y ∈ insertAll (insert elements x) news ↔ _
      rw [ih, mem_insert, List.mem_cons, or_assoc]

theorem insertAll_nodup {elements : List κ} (hnodup : elements.Nodup) (news : List κ) :
    (insertAll elements news).Nodup := by
  induction news generalizing elements with
  | nil => exact hnodup
  | cons x news ih => exact ih (insert_nodup hnodup x)

@[simp] theorem mem_distinct {elements : List κ} {y : κ} :
    y ∈ distinct elements ↔ y ∈ elements := by
  simp [distinct]

theorem distinct_nodup (elements : List κ) : (distinct elements).Nodup :=
  insertAll_nodup List.nodup_nil elements

theorem length_distinct_filter (elements : List κ) (keeps : κ → Bool) :
    ((distinct elements).filter keeps).length =
      (elements.toFinset.filter (fun x => keeps x = true)).card := by
  rw [← List.toFinset_card_of_nodup ((distinct_nodup elements).filter keeps)]
  congr 1
  ext x
  simp

theorem length_distinct (elements : List κ) :
    (distinct elements).length = elements.toFinset.card := by
  simpa using length_distinct_filter elements (fun _ => true)

/-- New elements arrive behind the present ones. -/
theorem insertAll_of_new {elements news : List κ} (hnodup : (elements ++ news).Nodup) :
    insertAll elements news = elements ++ news := by
  induction news generalizing elements with
  | nil => exact (List.append_nil elements).symm
  | cons x news ih =>
      have hnew : x ∉ elements := by
        rw [List.nodup_append] at hnodup
        exact fun hmem => hnodup.2.2 x hmem x List.mem_cons_self rfl
      have hnext : (elements ++ [x] ++ news).Nodup := by
        rwa [List.append_assoc]
      change insertAll (insert elements x) news = _
      rw [insert, if_neg hnew, ih hnext, List.append_assoc]
      rfl

theorem distinct_of_nodup {elements : List κ} (hnodup : elements.Nodup) :
    distinct elements = elements := by
  have hnew : ([] ++ elements).Nodup := hnodup
  exact insertAll_of_new hnew

theorem insertAll_map {ι : Type} [DecidableEq ι] {f : κ → ι} {elements news : List κ}
    (hinj : ∀ x ∈ elements ++ news, ∀ y ∈ elements ++ news, f x = f y → x = y) :
    insertAll (elements.map f) (news.map f) = (insertAll elements news).map f := by
  induction news generalizing elements with
  | nil => rfl
  | cons x news ih =>
      have hinsert : insert (elements.map f) (f x) = (insert elements x).map f := by
        have hmem : f x ∈ elements.map f ↔ x ∈ elements := by
          constructor
          · intro himage
            obtain ⟨y, hy, heq⟩ := List.mem_map.mp himage
            exact hinj y (by simp [hy]) x (by simp) heq ▸ hy
          · exact List.mem_map_of_mem
        unfold insert
        by_cases hx : x ∈ elements
        · rw [if_pos (hmem.mpr hx), if_pos hx]
        · rw [if_neg (fun himage => hx (hmem.mp himage)), if_neg hx, List.map_append]
          rfl
      have hsub : ∀ y ∈ insert elements x ++ news, y ∈ elements ++ x :: news := by
        intro y hy
        rw [List.mem_append, mem_insert, or_assoc] at hy
        simpa using hy
      change insertAll (insert (elements.map f) (f x)) (news.map f) = _
      rw [hinsert, ih (fun y hy z hz => hinj y (hsub y hy) z (hsub z hz))]
      rfl

/-- Renaming without a clash keeps the order of arrival. -/
theorem distinct_map {ι : Type} [DecidableEq ι] {f : κ → ι} {elements : List κ}
    (hinj : ∀ x ∈ elements, ∀ y ∈ elements, f x = f y → x = y) :
    distinct (elements.map f) = (distinct elements).map f := by
  have hnew : ∀ x ∈ [] ++ elements, ∀ y ∈ [] ++ elements, f x = f y → x = y := hinj
  exact insertAll_map hnew

@[simp] theorem mem_remove {elements : List κ} {x y : κ} :
    y ∈ remove elements x ↔ y ∈ elements ∧ y ≠ x := by
  simp [remove]

theorem position?_eq_some_iff {elements : List κ} {x : κ} {place : Nat} :
    position? elements x = some place ↔ x ∈ elements ∧ place = elements.idxOf x := by
  unfold position?
  rw [List.findIdx?_eq_some_iff_findIdx_eq]
  have hidx : elements.findIdx (fun y => decide (y = x)) = elements.idxOf x := by
    unfold List.idxOf
    congr 1
  rw [hidx]
  constructor
  · rintro ⟨hlt, heq⟩
    exact ⟨List.idxOf_lt_length_iff.mp (heq ▸ hlt), heq.symm⟩
  · rintro ⟨hmem, rfl⟩
    exact ⟨List.idxOf_lt_length_of_mem hmem, rfl⟩

theorem position?_eq_none_iff {elements : List κ} {x : κ} :
    position? elements x = none ↔ x ∉ elements := by
  rw [Option.eq_none_iff_forall_ne_some]
  constructor
  · intro hnone hmem
    exact hnone _ (position?_eq_some_iff.mpr ⟨hmem, rfl⟩)
  · intro hnot place hplace
    exact hnot (position?_eq_some_iff.mp hplace).1

end Sets

section Maps

variable {κ β : Type} [DecidableEq κ]

theorem get?_put (entries : List (κ × β)) (key other : κ) (value : β) :
    get? (put entries key value) other =
      if key = other then some value else get? entries other := by
  induction entries with
  | nil => simp [put, get?]
  | cons entry entries ih =>
      obtain ⟨k, v⟩ := entry
      by_cases hkey : k = key
      · subst hkey
        by_cases hother : k = other <;> simp [put, get?, hother]
      · by_cases hother : k = other
        · subst hother
          simp [put, get?, hkey, Ne.symm hkey]
        · simp [put, get?, hkey, hother, ih]

theorem mem_of_get? {entries : List (κ × β)} {key : κ} {value : β}
    (hget : get? entries key = some value) : (key, value) ∈ entries := by
  induction entries with
  | nil => simp [get?] at hget
  | cons entry entries ih =>
      obtain ⟨k, v⟩ := entry
      by_cases hkey : k = key
      · simp [get?, hkey] at hget
        simp [hkey, hget]
      · simp [get?, hkey] at hget
        exact List.mem_cons_of_mem _ (ih hget)

theorem get?_eq_none_iff {entries : List (κ × β)} {key : κ} :
    get? entries key = none ↔ key ∉ entries.map Prod.fst := by
  induction entries with
  | nil => simp [get?]
  | cons entry entries ih =>
      obtain ⟨k, v⟩ := entry
      by_cases hkey : k = key
      · simp [get?, hkey]
      · simp [get?, hkey, Ne.symm hkey, ih]

theorem get?_eq_some_iff {entries : List (κ × β)} (hkeys : (entries.map Prod.fst).Nodup)
    {key : κ} {value : β} :
    get? entries key = some value ↔ (key, value) ∈ entries := by
  refine ⟨mem_of_get?, ?_⟩
  intro hmem
  induction entries with
  | nil => simp at hmem
  | cons entry entries ih =>
      obtain ⟨k, v⟩ := entry
      rw [List.map_cons, List.nodup_cons] at hkeys
      rcases List.mem_cons.mp hmem with heq | htail
      · cases heq
        simp [get?]
      · have hne : k ≠ key := by
          rintro rfl
          exact hkeys.1 (List.mem_map.mpr ⟨_, htail, rfl⟩)
        simp only [get?, if_neg hne]
        exact ih hkeys.2 htail

theorem keys_put (entries : List (κ × β)) (key : κ) (value : β) :
    (put entries key value).map Prod.fst = insert (entries.map Prod.fst) key := by
  induction entries with
  | nil => simp [put, insert]
  | cons entry entries ih =>
      obtain ⟨k, v⟩ := entry
      by_cases hkey : k = key
      · simp [put, insert, hkey]
      · simp only [put, if_neg hkey, List.map_cons, ih]
        unfold insert
        by_cases hmem : key ∈ entries.map Prod.fst
        · simp [hmem]
        · simp [hmem, Ne.symm hkey]

theorem keys_putAll (entries news : List (κ × β)) :
    (putAll entries news).map Prod.fst =
      insertAll (entries.map Prod.fst) (news.map Prod.fst) := by
  unfold putAll insertAll
  induction news generalizing entries with
  | nil => rfl
  | cons entry news ih => rw [List.foldl_cons, ih, keys_put, List.map_cons, List.foldl_cons]

theorem keys_putAll_nodup {entries : List (κ × β)} (hkeys : (entries.map Prod.fst).Nodup)
    (news : List (κ × β)) : ((putAll entries news).map Prod.fst).Nodup := by
  rw [keys_putAll]
  exact insertAll_nodup hkeys (news.map Prod.fst)

theorem put_of_new {entries : List (κ × β)} {key : κ} (hkey : key ∉ entries.map Prod.fst)
    (value : β) : put entries key value = entries ++ [(key, value)] := by
  induction entries with
  | nil => rfl
  | cons entry entries ih =>
      rw [List.map_cons, List.mem_cons, not_or] at hkey
      simp [put, Ne.symm hkey.1, ih hkey.2]

/-- New keys arrive behind the present ones. -/
theorem putAll_of_new {entries news : List (κ × β)}
    (hkeys : ((entries ++ news).map Prod.fst).Nodup) : putAll entries news = entries ++ news := by
  unfold putAll
  induction news generalizing entries with
  | nil => exact (List.append_nil entries).symm
  | cons entry news ih =>
      have hnew : entry.1 ∉ entries.map Prod.fst := by
        rw [List.map_append, List.map_cons, List.nodup_append] at hkeys
        intro hmem
        exact hkeys.2.2 _ hmem _ List.mem_cons_self rfl
      have hnext : ((entries ++ [entry] ++ news).map Prod.fst).Nodup := by
        rwa [List.append_assoc]
      rw [List.foldl_cons, put_of_new hnew, ih hnext, List.append_assoc]
      rfl

theorem mem_put {entries : List (κ × β)} {key : κ} {value : β} {entry : κ × β}
    (hmem : entry ∈ put entries key value) : entry ∈ entries ∨ entry = (key, value) := by
  induction entries with
  | nil =>
      right
      simpa [put] using hmem
  | cons first entries ih =>
      obtain ⟨k, v⟩ := first
      by_cases hkey : k = key
      · simp only [put, if_pos hkey, List.mem_cons] at hmem
        rcases hmem with heq | htail
        · right
          rw [heq, hkey]
        · left
          exact List.mem_cons_of_mem _ htail
      · simp only [put, if_neg hkey, List.mem_cons] at hmem
        rcases hmem with heq | htail
        · left
          exact List.mem_cons.mpr (Or.inl heq)
        · rcases ih htail with hold | hnew
          · left
            exact List.mem_cons_of_mem _ hold
          · right
            exact hnew

theorem mem_putAll {entries news : List (κ × β)} {entry : κ × β}
    (hmem : entry ∈ putAll entries news) : entry ∈ entries ∨ entry ∈ news := by
  unfold putAll at hmem
  induction news generalizing entries with
  | nil => exact Or.inl hmem
  | cons new news ih =>
      rcases ih hmem with hput | hnew
      · rcases mem_put hput with hold | rfl
        · exact Or.inl hold
        · exact Or.inr List.mem_cons_self
      · exact Or.inr (List.mem_cons_of_mem _ hnew)

/-- Renaming the keys one to one, and the values, commutes with writing. -/
theorem put_map {ι γ : Type} [DecidableEq ι] {place : κ → ι} (hplace : Function.Injective place)
    (rename : β → γ) (entries : List (κ × β)) (key : κ) (value : β) :
    put (entries.map (Prod.map place rename)) (place key) (rename value) =
      (put entries key value).map (Prod.map place rename) := by
  induction entries with
  | nil => rfl
  | cons entry entries ih =>
      by_cases hkey : entry.1 = key
      · simp [put, hkey]
      · have hplaces : place entry.1 ≠ place key := fun heq => hkey (hplace heq)
        simp [put, hkey, hplaces, ih, Prod.map]

theorem putAll_map {ι γ : Type} [DecidableEq ι] {place : κ → ι} (hplace : Function.Injective place)
    (rename : β → γ) (entries news : List (κ × β)) :
    putAll (entries.map (Prod.map place rename)) (news.map (Prod.map place rename)) =
      (putAll entries news).map (Prod.map place rename) := by
  unfold putAll
  induction news generalizing entries with
  | nil => rfl
  | cons new news ih =>
      rw [List.map_cons, List.foldl_cons, List.foldl_cons, ← ih]
      congr 1
      exact put_map hplace rename entries new.1 new.2

theorem hasKey_iff {entries : List (κ × β)} {key : κ} :
    hasKey entries key = true ↔ key ∈ entries.map Prod.fst := by
  unfold hasKey
  rw [Option.isSome_iff_ne_none, Ne, get?_eq_none_iff, not_not]

/-- The values that were given with a key, in order. -/
def valuesOf (entries : List (κ × β)) (key : κ) : List β :=
  (entries.filter (fun entry => entry.1 = key)).map Prod.snd

/-- Appending values one by one collects under every key the values that were given with it. -/
theorem getD_foldl_append (entries : List (κ × β)) (table : List (κ × List β)) (key : κ) :
    (get? (entries.foldl (fun table entry => append table entry.1 entry.2) table) key).getD [] =
      (get? table key).getD [] ++ valuesOf entries key := by
  induction entries generalizing table with
  | nil => simp [valuesOf]
  | cons entry entries ih =>
      rw [List.foldl_cons, ih, append, get?_put]
      by_cases hkey : entry.1 = key
      · subst hkey
        simp [valuesOf]
      · simp [valuesOf, hkey]

theorem keys_foldl_append (entries : List (κ × β)) (table : List (κ × List β)) :
    (entries.foldl (fun table entry => append table entry.1 entry.2) table).map Prod.fst =
      insertAll (table.map Prod.fst) (entries.map Prod.fst) := by
  induction entries generalizing table with
  | nil => rfl
  | cons entry entries ih =>
      rw [List.foldl_cons, ih, append, keys_put]
      rfl

end Maps

end DerivationBelief.Arrival

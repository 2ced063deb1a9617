import DerivationBelief.Proofs.ArrivalOrder
import Mathlib.Tactic

/-!
# Lookups by arrival

A map that is written to answers with the last value under a key, a list of entries with the first
one.  Elements that are numbered in order of arrival keep the number of their first arrival, however
often they come again.
-/

namespace DerivationBelief.Arrival

variable {κ ι β γ : Type} [DecidableEq κ] [DecidableEq ι]

/-! ## The last value under a key -/

theorem get?_putAll (table entries : List (κ × β)) (key : κ) :
    get? (putAll table entries) key = (valuesOf entries key).getLast?.or (get? table key) := by
  unfold putAll
  induction entries generalizing table with
  | nil => rfl
  | cons entry entries ih =>
      rw [List.foldl_cons, ih, get?_put]
      unfold valuesOf
      by_cases hkey : entry.1 = key
      · rw [List.filter_cons_of_pos (by simpa using hkey), if_pos hkey, List.map_cons,
          List.getLast?_cons]
        cases (List.map Prod.snd (entries.filter (fun entry => entry.1 = key))).getLast? <;> rfl
      · rw [List.filter_cons_of_neg (by simpa using hkey), if_neg hkey]

theorem mem_of_getLast?_valuesOf {entries : List (κ × β)} {key : κ} {value : β}
    (hlast : (valuesOf entries key).getLast? = some value) : (key, value) ∈ entries := by
  obtain ⟨entry, hentry, rfl⟩ := List.mem_map.mp (List.mem_of_getLast? hlast)
  obtain ⟨hmem, hkey⟩ := List.mem_filter.mp hentry
  rw [← of_decide_eq_true hkey]
  exact hmem

/-- Where renaming keeps the keys apart, the values under a key are found under its new name. -/
theorem valuesOf_map {place : κ → ι} (rename : β → γ) {entries : List (κ × β)} {key : κ}
    (hplace : ∀ entry ∈ entries, place entry.1 = place key → entry.1 = key) :
    valuesOf (entries.map (Prod.map place rename)) (place key) =
      (valuesOf entries key).map rename := by
  unfold valuesOf
  rw [List.filter_map, List.map_map, List.map_map]
  have hfilter : entries.filter
      ((fun entry : ι × γ => decide (entry.1 = place key)) ∘ Prod.map place rename) =
      entries.filter (fun entry => entry.1 = key) := by
    apply List.filter_congr
    intro entry hentry
    exact decide_eq_decide.mpr ⟨hplace entry hentry, fun heq => congrArg place heq⟩
  rw [hfilter]
  rfl

/-- A map that is written under new names that keep the keys apart has the last value of each. -/
theorem get?_putAll_map_eq_some_iff {place : κ → ι} {rename : β → γ} {entries : List (κ × β)}
    (hplace : ∀ entry ∈ entries, ∀ other ∈ entries,
      place entry.1 = place other.1 → entry.1 = other.1) {name : ι} {renamed : γ} :
    get? (putAll [] (entries.map (Prod.map place rename))) name = some renamed ↔
      ∃ key value, (valuesOf entries key).getLast? = some value ∧ name = place key ∧
        renamed = rename value := by
  have hget : get? (putAll [] (entries.map (Prod.map place rename))) name =
      (valuesOf (entries.map (Prod.map place rename)) name).getLast? := by
    rw [get?_putAll]
    exact Option.or_none
  rw [hget]
  constructor
  · intro hlast
    obtain ⟨entry, hentry, heq⟩ := List.mem_map.mp (mem_of_getLast?_valuesOf hlast)
    obtain ⟨rfl, rfl⟩ := Prod.mk.inj heq
    rw [valuesOf_map rename (fun other hother => hplace other hother entry hentry),
      List.getLast?_map] at hlast
    obtain ⟨value, hvalue, hrenamed⟩ := Option.map_eq_some_iff.mp hlast
    exact ⟨entry.1, value, hvalue, rfl, hrenamed.symm⟩
  · rintro ⟨key, value, hvalue, rfl, rfl⟩
    have hentry := mem_of_getLast?_valuesOf hvalue
    rw [valuesOf_map rename (fun other hother => hplace other hother _ hentry),
      List.getLast?_map, hvalue]
    rfl

/-! ## First arrivals -/

theorem distinct_concat (elements : List κ) (x : κ) :
    distinct (elements ++ [x]) = insert (distinct elements) x := by
  unfold distinct insertAll
  rw [List.foldl_append]
  rfl

/-- What arrives again is left out. -/
theorem distinct_eq_eraseDups (elements : List κ) : distinct elements = elements.eraseDups := by
  induction elements using List.reverseRecOn with
  | nil => rfl
  | append_singleton elements x ih =>
      rw [distinct_concat, List.eraseDups_append, ← ih]
      unfold insert
      by_cases hx : x ∈ elements <;> simp [hx, List.removeAll, List.eraseDups_cons]

theorem eraseDups_nodup (elements : List κ) : elements.eraseDups.Nodup := by
  rw [← distinct_eq_eraseDups]
  exact distinct_nodup elements

theorem eraseDups_of_nodup {elements : List κ} (hnodup : elements.Nodup) :
    elements.eraseDups = elements := by
  rw [← distinct_eq_eraseDups, distinct_of_nodup hnodup]

/-- Only different elements all arrive for the first time. -/
theorem eraseDups_length_lt {elements : List κ} (hnodup : ¬ elements.Nodup) :
    elements.eraseDups.length < elements.length := by
  have hsame : elements.eraseDups.toFinset = elements.toFinset := by
    ext x
    rw [List.mem_toFinset, List.mem_toFinset, List.mem_eraseDups]
  rw [← List.toFinset_card_of_nodup (eraseDups_nodup elements), hsame]
  apply lt_of_le_of_ne (List.toFinset_card_le elements)
  intro hcard
  exact hnodup (Multiset.coe_nodup.mp (Multiset.toFinset_card_eq_card_iff_nodup.mp hcard))

/-- An element keeps its place exactly when nothing up to this place has arrived twice. -/
theorem getElem?_eraseDups_iff {elements : List κ} {place : Nat} {x : κ}
    (hx : elements[place]? = some x) :
    elements.eraseDups[place]? = some x ↔ (elements.take (place + 1)).Nodup := by
  obtain ⟨hplace, hget⟩ := List.getElem?_eq_some_iff.mp hx
  have hlength : (elements.take (place + 1)).length = place + 1 :=
    List.length_take_of_le hplace
  have hsplit : elements.eraseDups = (elements.take (place + 1)).eraseDups ++
      ((elements.drop (place + 1)).removeAll (elements.take (place + 1))).eraseDups := by
    rw [← List.eraseDups_append, List.take_append_drop]
  have hmem : x ∈ elements.take (place + 1) := by
    rw [List.mem_take_iff_getElem]
    exact ⟨place, by omega, hget⟩
  rw [hsplit]
  constructor
  · intro hkept
    by_contra hnodup
    have hshort := eraseDups_length_lt hnodup
    rw [hlength] at hshort
    rw [List.getElem?_append_right (Nat.le_of_lt_succ hshort)] at hkept
    have hlate := (List.mem_filter.mp (List.mem_eraseDups.mp (List.mem_of_getElem? hkept))).2
    rw [List.elem_eq_true_of_mem hmem] at hlate
    cases hlate
  · intro hnodup
    rw [eraseDups_of_nodup hnodup, List.getElem?_append_left (by omega),
      List.getElem?_take_of_lt (Nat.lt_succ_self place), hx]

/-- Elements that are replaced by the numbers of their first arrivals arrive in the order of these. -/
theorem eraseDups_map_idxOf (elements : List κ) :
    (elements.map elements.eraseDups.idxOf).eraseDups =
      List.range elements.eraseDups.length := by
  have hnodup := eraseDups_nodup elements
  rw [← distinct_eq_eraseDups (elements.map _), distinct_map, distinct_eq_eraseDups]
  · apply List.ext_getElem
    · rw [List.length_map, List.length_range]
    · intro place hplace _
      rw [List.length_map] at hplace
      rw [List.getElem_map, List.getElem_range, hnodup.idxOf_getElem place hplace]
  · intro x hx y _ hsame
    exact (List.idxOf_inj (List.mem_eraseDups.mpr hx)).mp hsame

theorem idxOf_insert {elements : List κ} {y : κ} (hy : y ∈ elements) (x : κ) :
    (insert elements x).idxOf y = elements.idxOf y := by
  unfold insert
  split
  · rfl
  · exact List.idxOf_append_of_mem hy

theorem get?_append (entries more : List (κ × β)) (key : κ) :
    get? (entries ++ more) key = (get? entries key).or (get? more key) := by
  induction entries with
  | nil => rfl
  | cons entry entries ih =>
      obtain ⟨k, v⟩ := entry
      by_cases hkey : k = key
      · simp [get?, hkey]
      · simp [get?, hkey, ih]

theorem get?_eq_find? (entries : List (κ × β)) (key : κ) :
    get? entries key = (entries.find? (fun entry => entry.1 = key)).map Prod.snd := by
  induction entries with
  | nil => rfl
  | cons entry entries ih =>
      by_cases hkey : entry.1 = key
      · simp [get?, hkey]
      · simp [get?, hkey, ih]

/-! ## Numbers in order of arrival -/

theorem get?_zipIdx (elements : List κ) (start : Nat) (x : κ) :
    get? (elements.zipIdx start) x =
      if x ∈ elements then some (start + elements.idxOf x) else none := by
  induction elements generalizing start with
  | nil => rfl
  | cons y elements ih =>
      by_cases hy : y = x
      · simp [get?, hy]
      · simp [get?, hy, Ne.symm hy, ih, List.idxOf_cons_ne elements hy, Nat.add_assoc,
          Nat.add_comm 1]

theorem put_zipIdx {elements : List κ} {x : κ} (hx : x ∉ elements) (start : Nat) :
    put (elements.zipIdx start) x (start + elements.length) =
      (elements ++ [x]).zipIdx start := by
  have hkeys : x ∉ (elements.zipIdx start).map Prod.fst := by
    rwa [List.zipIdx_map_fst]
  rw [put_of_new hkeys, List.zipIdx_append]
  rfl

end DerivationBelief.Arrival

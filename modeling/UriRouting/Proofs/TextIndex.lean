import Mathlib.Data.String.Basic
import UriRouting.TextIndex
/-!
Looking up what was altered.

The search narrows the keys down to a place where the key is, or to one between the smaller and the greater keys. A
table in ascending order stays so, and `alter` changes the value of its key alone.
-/

namespace UriRouting
namespace TextIndex

variable {α : Type}

/-! ## Searching -/

section

variable {keys : Array String} {key : String}

def Ascending (keys : Array String) : Prop :=
  ∀ (i j : Nat) (a b : String), keys[i]? = some a → keys[j]? = some b → i < j → a < b

/-- What is left out of a search does not hold the key: what is before `low` is smaller, and what is from `high` on
is greater. -/
structure Narrowed (keys : Array String) (key : String) (low high : Nat) : Prop where
  le : low ≤ high
  below : ∀ (j : Nat) (k : String), keys[j]? = some k → j < low → k < key
  above : ∀ (j : Nat) (k : String), keys[j]? = some k → high ≤ j → key < k

/-- The key is at its place, or the place is between the smaller and the greater keys. -/
def Place.Right (keys : Array String) (key : String) : Place → Prop
  | held i => keys[i]? = some key
  | missing i => i ≤ keys.size ∧ Narrowed keys key i i

theorem narrowed_start (keys : Array String) (key : String) : Narrowed keys key 0 keys.size := by
  refine ⟨Nat.zero_le _, fun j k _ hj => absurd hj (Nat.not_lt_zero j), fun j k hk hj => ?_⟩
  rw [Array.getElem?_eq_none hj] at hk
  cases hk

section

variable {low high middle : Nat} {k : String} (hasc : Ascending keys) (h : Narrowed keys key low high)
  (hk : keys[middle]? = some k)

include hasc h hk

theorem Narrowed.upper (hhigh : middle < high) (hlt : k < key) : Narrowed keys key (middle + 1) high := by
  refine ⟨hhigh, fun j a ha hj => ?_, h.above⟩
  obtain hj | rfl := Nat.lt_or_eq_of_le (Nat.le_of_lt_succ hj)
  · exact lt_trans (hasc j middle a k ha hk hj) hlt
  · rw [hk] at ha
    cases ha
    exact hlt

theorem Narrowed.lower (hlow : low ≤ middle) (hlt : key < k) : Narrowed keys key low middle := by
  refine ⟨hlow, h.below, fun j a ha hj => ?_⟩
  obtain hj | rfl := Nat.lt_or_eq_of_le hj
  · exact lt_trans hlt (hasc middle j k a hk ha hj)
  · rw [hk] at ha
    cases ha
    exact hlt

end

theorem Narrowed.search (hasc : Ascending keys) {low high : Nat} {within : high ≤ keys.size}
    (h : Narrowed keys key low high) : (search keys key low high within).Right keys key := by
  fun_induction TextIndex.search keys key low high within with
  | case1 low high within hlow middle hmiddle hlt ih =>
    exact ih (h.upper hasc (Array.getElem?_eq_getElem hmiddle) (by omega) hlt)
  | case2 low high within hlow middle hmiddle hlt heq => exact heq ▸ Array.getElem?_eq_getElem hmiddle
  | case3 low high within hlow middle hmiddle hlt heq ih =>
    have hgt : key < keys[middle] := lt_of_le_of_ne (not_lt.mp hlt) (Ne.symm heq)
    exact ih (h.lower hasc (Array.getElem?_eq_getElem hmiddle) (by omega) hgt)
  | case4 low high within hlow =>
    obtain rfl : low = high := Nat.le_antisymm h.le (Nat.le_of_not_lt hlow)
    exact ⟨within, h⟩

theorem search_held {low high : Nat} {within : high ≤ keys.size} {i : Nat}
    (h : search keys key low high within = .held i) : keys[i]? = some key := by
  fun_induction search keys key low high within with
  | case1 low high within hlow middle hmiddle hlt ih => exact ih h
  | case2 low high within hlow middle hmiddle hlt heq =>
    rw [← Place.held.inj h, Array.getElem?_eq_getElem hmiddle, heq]
  | case3 low high within hlow middle hmiddle hlt heq ih => exact ih h
  | case4 => cases h

end

/-! ## Tables in order -/

/-- The keys ascend, so that no key occurs twice, and each of them has a value. -/
structure Sorted (t : TextIndex α) : Prop where
  ascending : Ascending t.keys
  aligned : t.keys.size = t.values.size

theorem sorted_empty : (empty : TextIndex α).Sorted :=
  ⟨fun i j a b ha => by simp [empty] at ha, rfl⟩

theorem Sorted.place {t : TextIndex α} (h : t.Sorted) (key : String) : (t.place key).Right t.keys key :=
  (narrowed_start t.keys key).search h.ascending

theorem Ascending.eq {keys : Array String} (h : Ascending keys) {i j : Nat} {k : String} (hi : keys[i]? = some k)
    (hj : keys[j]? = some k) : i = j := by
  obtain hlt | heq | hlt := Nat.lt_trichotomy i j
  · exact absurd (h i j k k hi hj hlt) (lt_irrefl k)
  · exact heq
  · exact absurd (h j i k k hj hi hlt) (lt_irrefl k)

theorem Ascending.pairwise {keys : Array String} (h : Ascending keys) : keys.toList.Pairwise (· < ·) :=
  List.pairwise_iff_getElem.mpr fun i j hi hj hlt =>
    h i j _ _ (Array.getElem?_eq_getElem hi) (Array.getElem?_eq_getElem hj) hlt

theorem Sorted.keys_entries {t : TextIndex α} (h : t.Sorted) : t.entries.map Prod.fst = t.keys.toList :=
  List.map_fst_zip (Nat.le_of_eq h.aligned)

theorem Sorted.nodup {t : TextIndex α} (h : t.Sorted) : (t.entries.map Prod.fst).Nodup := by
  rw [h.keys_entries]
  exact h.ascending.pairwise.imp fun hlt => ne_of_lt hlt

theorem mem_entries {t : TextIndex α} {key : String} {v : α} :
    (key, v) ∈ t.entries ↔ ∃ i : Nat, t.keys[i]? = some key ∧ t.values[i]? = some v := by
  simp only [entries, List.mem_iff_getElem?, List.getElem?_zip_eq_some, Array.getElem?_toList]

/-- What is found for a key is its value, in whatever order the keys are. -/
theorem mem_entries_of_find? {t : TextIndex α} {key : String} {v : α} (h : t.find? key = some v) :
    (key, v) ∈ t.entries := by
  rw [find?] at h
  split at h
  · next i hplace => exact mem_entries.mpr ⟨i, search_held hplace, h⟩
  · cases h

theorem Sorted.mem_entries_iff {t : TextIndex α} (h : t.Sorted) {key : String} {v : α} :
    (key, v) ∈ t.entries ↔ t.find? key = some v := by
  refine ⟨fun hmem => ?_, mem_entries_of_find?⟩
  obtain ⟨i, hkey, hvalue⟩ := mem_entries.mp hmem
  have hplace := h.place key
  rw [find?]
  split
  · next j hj =>
    rw [hj] at hplace
    rw [h.ascending.eq hplace hkey]
    exact hvalue
  · next j hj =>
    rw [hj] at hplace
    obtain ⟨-, hnarrowed⟩ := hplace
    exfalso
    obtain hlt | hle := Nat.lt_or_ge i j
    · exact lt_irrefl key (hnarrowed.below i key hkey hlt)
    · exact lt_irrefl key (hnarrowed.above i key hkey hle)

/-! ## Altering -/

/-- What is in a row after an insertion: what was before the place, what was inserted, and the rest one further. -/
theorem getElem?_inserted {β : Type} {xs : Array β} {i j : Nat} {x a : β} (hi : i ≤ xs.size) :
    (xs.insertIdxIfInBounds i x)[j]? = some a ↔
      (j < i ∧ xs[j]? = some a) ∨ (j = i ∧ x = a) ∨ (i < j ∧ xs[j - 1]? = some a) := by
  rw [Array.insertIdxIfInBounds, dif_pos hi, Array.getElem?_insertIdx hi]
  split
  · next hj => simp [hj, Nat.ne_of_lt hj, Nat.lt_asymm hj]
  · next hj =>
    split
    · next heq => simp [heq, hi]
    · next hne =>
      have hlt : i < j := by omega
      simp [hj, hne, hlt]

theorem Place.Right.ascending {keys : Array String} {key : String} {i : Nat} (h : (Place.missing i).Right keys key)
    (hasc : Ascending keys) : Ascending (keys.insertIdxIfInBounds i key) := by
  obtain ⟨hi, hnarrowed⟩ := h
  intro j j' a b ha hb hlt
  rw [getElem?_inserted hi] at ha hb
  obtain ⟨hj, ha⟩ | ⟨hj, rfl⟩ | ⟨hj, ha⟩ := ha
  · obtain ⟨hj', hb⟩ | ⟨hj', rfl⟩ | ⟨hj', hb⟩ := hb
    · exact hasc j j' a b ha hb hlt
    · exact hnarrowed.below j a ha hj
    · exact hasc j (j' - 1) a b ha hb (by omega)
  · obtain ⟨hj', -⟩ | ⟨hj', -⟩ | ⟨hj', hb⟩ := hb
    · omega
    · omega
    · exact hnarrowed.above (j' - 1) b hb (by omega)
  · obtain ⟨hj', -⟩ | ⟨hj', -⟩ | ⟨hj', hb⟩ := hb
    · omega
    · omega
    · exact hasc (j - 1) (j' - 1) a b ha hb (by omega)

theorem Sorted.enter {t : TextIndex α} (h : t.Sorted) (key : String) (fresh : α) :
    (Id.run (t.enter key (pure fresh))).2.Sorted := by
  have hright := h.place key
  rw [TextIndex.enter]
  split
  · exact h
  · next i hplace =>
    rw [hplace] at hright
    refine ⟨hright.ascending h.ascending, ?_⟩
    show (t.keys.insertIdxIfInBounds i key).size = (t.values.insertIdxIfInBounds i fresh).size
    have hi : i ≤ t.keys.size := hright.1
    have hi' : i ≤ t.values.size := h.aligned ▸ hi
    rw [Array.insertIdxIfInBounds, Array.insertIdxIfInBounds, dif_pos hi, dif_pos hi', Array.size_insertIdx,
      Array.size_insertIdx, h.aligned]

theorem Sorted.alter {t : TextIndex α} (h : t.Sorted) (key : String) (fresh : α) (update : α → α) :
    (t.alter key fresh update).Sorted := by
  obtain ⟨hasc, haligned⟩ := h.enter key fresh
  refine ⟨hasc, ?_⟩
  show _ = (Array.modify _ _ update).size
  rw [Array.size_modify]
  exact haligned

/-- After an insertion the entries are those of before and the new one. -/
theorem mem_entries_inserted {t : TextIndex α} (haligned : t.keys.size = t.values.size) {i : Nat}
    (hi : i ≤ t.keys.size) {key k : String} {x v : α} :
    (k, v) ∈ (⟨t.keys.insertIdxIfInBounds i key, t.values.insertIdxIfInBounds i x⟩ : TextIndex α).entries ↔
      (k = key ∧ v = x) ∨ (k, v) ∈ t.entries := by
  simp only [mem_entries, getElem?_inserted hi, getElem?_inserted (haligned ▸ hi)]
  constructor
  · intro h
    obtain ⟨j, hk, hv⟩ := h
    obtain ⟨hj, hk⟩ | ⟨hj, hk⟩ | ⟨hj, hk⟩ := hk
    · have hv := (hv.resolve_right fun h => by omega).2
      exact Or.inr ⟨j, hk, hv⟩
    · have hv := ((hv.resolve_left fun h => by omega).resolve_right fun h => by omega).2
      exact Or.inl ⟨hk.symm, hv.symm⟩
    · have hv := ((hv.resolve_left fun h => by omega).resolve_left fun h => by omega).2
      exact Or.inr ⟨j - 1, hk, hv⟩
  · intro h
    obtain ⟨rfl, rfl⟩ | ⟨j, hk, hv⟩ := h
    · exact ⟨i, Or.inr (Or.inl ⟨rfl, rfl⟩), Or.inr (Or.inl ⟨rfl, rfl⟩)⟩
    · obtain hj | hj := Nat.lt_or_ge j i
      · exact ⟨j, Or.inl ⟨hj, hk⟩, Or.inl ⟨hj, hv⟩⟩
      · exact ⟨j + 1, Or.inr (Or.inr ⟨by omega, hk⟩), Or.inr (Or.inr ⟨by omega, hv⟩)⟩

/-- Where a key is put in, and what is found afterwards. -/
theorem Sorted.find?_enter {t : TextIndex α} (h : t.Sorted) (key : String) (fresh : α) (k : String) :
    (Id.run (t.enter key (pure fresh))).2.find? k
      = if k = key then some ((t.find? key).getD fresh) else t.find? k := by
  have hright := h.place key
  have hentered := h.enter key fresh
  -- An insertion moves places, so that the entries are compared and not where they are found.
  apply Option.ext
  intro v
  rw [← hentered.mem_entries_iff, TextIndex.enter]
  split
  · next i hplace =>
    rw [hplace] at hright
    obtain ⟨old, hold⟩ : ∃ old, t.find? key = some old := by
      have hi : i < t.values.size := by
        rw [← h.aligned]
        exact (Array.getElem?_eq_some_iff.mp hright).1
      exact ⟨t.values[i], by rw [find?, hplace]; exact Array.getElem?_eq_getElem hi⟩
    show (k, v) ∈ t.entries ↔ _
    rw [h.mem_entries_iff, hold, Option.getD_some]
    split
    · next hk => rw [hk, hold]
    · rfl
  · next i hplace =>
    rw [hplace] at hright
    have hnone : t.find? key = none := by rw [find?, hplace]
    show (k, v) ∈ (⟨t.keys.insertIdxIfInBounds i key, t.values.insertIdxIfInBounds i fresh⟩ : TextIndex α).entries ↔ _
    rw [mem_entries_inserted h.aligned hright.1, h.mem_entries_iff, hnone, Option.getD_none]
    by_cases hk : k = key
    · subst hk
      simp [hnone, eq_comm]
    · simp [hk]

/-- The place that is found for a key holds it. -/
theorem Sorted.keys_enter {t : TextIndex α} (h : t.Sorted) (key : String) (fresh : α) :
    (Id.run (t.enter key (pure fresh))).2.keys[(Id.run (t.enter key (pure fresh))).1]? = some key := by
  have hright := h.place key
  rw [TextIndex.enter]
  split
  · next i hplace =>
    rw [hplace] at hright
    exact hright
  · next i hplace =>
    rw [hplace] at hright
    exact (getElem?_inserted hright.1).mpr (Or.inr (Or.inl ⟨rfl, rfl⟩))

/-- Modifying the value at the place of a key modifies the value of that key alone. -/
theorem Sorted.find?_modified {t : TextIndex α} (h : t.Sorted) {i : Nat} {key : String}
    (hkey : t.keys[i]? = some key) (g : α → α) (k : String) :
    ({ t with values := t.values.modify i g } : TextIndex α).find? k
      = if k = key then (t.find? key).map g else t.find? k := by
  have hright := h.place k
  have hplaced : ({ t with values := t.values.modify i g } : TextIndex α).place k = t.place k := rfl
  rw [find?, hplaced]
  cases hplace : t.place k with
  | held j =>
    have hfind : t.find? k = t.values[j]? := by rw [find?, hplace]
    rw [hplace] at hright
    show (t.values.modify i g)[j]? = _
    rw [Array.getElem?_modify]
    by_cases hij : i = j
    · subst hij
      obtain rfl : k = key := Option.some.inj (hright.symm.trans hkey)
      rw [if_pos rfl, if_pos rfl, hfind]
    · have hk : k ≠ key := by
        rintro rfl
        exact hij (h.ascending.eq hkey hright)
      rw [if_neg hij, if_neg hk, hfind]
  | missing j =>
    have hfind : t.find? k = none := by rw [find?, hplace]
    show none = _
    split
    · next hk => rw [← hk, hfind, Option.map_none]
    · rw [hfind]

/-- `alter` changes the value of its key and no other. -/
theorem find?_alter {t : TextIndex α} (h : t.Sorted) (key : String) (fresh : α) (update : α → α) (k : String) :
    (t.alter key fresh update).find? k
      = if k = key then some (update ((t.find? key).getD fresh)) else t.find? k := by
  have hmodified := (h.enter key fresh).find?_modified (h.keys_enter key fresh) update k
  rw [h.find?_enter, h.find?_enter, if_pos rfl, Option.map_some] at hmodified
  rw [TextIndex.alter, hmodified]
  split <;> rfl

/-- What `alter` makes of the entries. -/
theorem Sorted.mem_entries_alter {t : TextIndex α} (h : t.Sorted) {key : String} {fresh : α} {update : α → α}
    {k : String} {v : α} : (k, v) ∈ (t.alter key fresh update).entries ↔
      if k = key then update ((t.find? key).getD fresh) = v else (k, v) ∈ t.entries := by
  rw [(h.alter key fresh update).mem_entries_iff, find?_alter h, h.mem_entries_iff]
  split
  · exact Option.some_inj
  · rfl

end TextIndex
end UriRouting

import Mathlib.Data.List.Induction
import UriRouting.Proofs.Text.Bytes
import UriRouting.Proofs.TextIndex
/-!
An index as a finite map.

An access asks for the value of a key, with a fresh one where the key is missing, and updates it. What a row of
accesses leaves for a key is told by those to the key alone: `valueAfter`. The index answers as told, and it stays in
byte order: `afterAll_keeps`.
-/

namespace UriRouting
namespace TextIndex

variable {α : Type}

structure Access (α : Type) where
  key : String
  fresh : α
  update : α → α

def access (t : TextIndex α) (a : Access α) : TextIndex α := t.alter a.key a.fresh a.update

/-- What accesses to an empty index make of it. -/
def afterAll (accesses : List (Access α)) : TextIndex α := accesses.foldl access empty

/-- The value that accesses leave for a key, each of which goes on with the value that it finds. -/
def valueAfter (key : String) (accesses : List (Access α)) : Option α :=
  accesses.foldl (fun v? a => if a.key = key then some (a.update (v?.getD a.fresh)) else v?) none

theorem afterAll_concat (accesses : List (Access α)) (a : Access α) :
    afterAll (accesses ++ [a]) = (afterAll accesses).access a := List.foldl_concat ..

theorem valueAfter_concat (key : String) (accesses : List (Access α)) (a : Access α) :
    valueAfter key (accesses ++ [a]) = if a.key = key then
      some (a.update ((valueAfter key accesses).getD a.fresh)) else valueAfter key accesses :=
  List.foldl_concat ..

theorem isSome_valueAfter {key : String} {accesses : List (Access α)} :
    (valueAfter key accesses).isSome = true ↔ ∃ a ∈ accesses, a.key = key := by
  induction accesses using List.reverseRecOn with
  | nil => simp [valueAfter]
  | append_singleton accesses a ih =>
    rw [valueAfter_concat]
    simp only [List.mem_append, List.mem_singleton, or_and_right, exists_or, exists_eq_left]
    split
    · next hkey => simp [hkey]
    · next hkey => rw [ih, or_iff_left hkey]

theorem sorted_afterAll (accesses : List (Access α)) : (afterAll accesses).Sorted := by
  induction accesses using List.reverseRecOn with
  | nil => exact sorted_empty
  | append_singleton accesses a ih =>
    rw [afterAll_concat]
    exact ih.alter a.key a.fresh a.update

theorem find?_afterAll (accesses : List (Access α)) (key : String) :
    (afterAll accesses).find? key = valueAfter key accesses := by
  induction accesses using List.reverseRecOn with
  | nil => exact find?_empty key
  | append_singleton accesses a ih =>
    rw [afterAll_concat, access, find?_alter (sorted_afterAll accesses), valueAfter_concat]
    by_cases hkey : key = a.key
    · subst hkey
      rw [if_pos rfl, if_pos rfl, ih]
    · rw [if_neg hkey, if_neg (Ne.symm hkey), ih]

/-! ## Places -/

/-- A place is in range of both rows. A key that is missing belongs there. -/
def Place.Fits (t : TextIndex α) (key : String) : Place → Prop
  | held i => t.keys[i]? = some key ∧ i < t.values.size
  | missing i => i ≤ t.keys.size ∧ i ≤ t.values.size ∧
      (∀ k ∈ t.keys.toList.take i, bytes k < bytes key) ∧ ∀ k ∈ t.keys.toList.drop i, bytes key < bytes k

theorem Sorted.place_fits {t : TextIndex α} (h : t.Sorted) (key : String) : (t.place key).Fits t key := by
  have hright := h.place key
  cases hplace : t.place key with
  | held i =>
    rw [hplace] at hright
    refine ⟨hright, ?_⟩
    rw [← h.aligned]
    exact (Array.getElem?_eq_some_iff.mp hright).1
  | missing i =>
    rw [hplace] at hright
    obtain ⟨hi, hnarrowed⟩ := hright
    refine ⟨hi, h.aligned ▸ hi, fun k hk => ?_, fun k hk => ?_⟩
    · obtain ⟨j, hj⟩ := List.mem_iff_getElem?.mp hk
      rw [List.getElem?_take, Array.getElem?_toList] at hj
      split at hj
      · next hlt => exact lt_iff_bytes_lt.mp (hnarrowed.below j k hj hlt)
      · cases hj
    · obtain ⟨j, hj⟩ := List.mem_iff_getElem?.mp hk
      rw [List.getElem?_drop, Array.getElem?_toList] at hj
      exact lt_iff_bytes_lt.mp (hnarrowed.above (i + j) k hj (Nat.le_add_right i j))

/-! ## Values -/

/-- The row of values has the value of each key once. -/
theorem Sorted.map_find?_keys {t : TextIndex α} (h : t.Sorted) :
    t.keys.toList.map t.find? = t.values.toList.map some := by
  apply List.ext_getElem?
  intro i
  rw [List.getElem?_map, List.getElem?_map, Array.getElem?_toList, Array.getElem?_toList]
  have haligned := h.aligned
  obtain hi | hi := Nat.lt_or_ge i t.keys.size
  · have hi' : i < t.values.size := by omega
    rw [Array.getElem?_eq_getElem hi, Array.getElem?_eq_getElem hi', Option.map_some, Option.map_some]
    refine congrArg some (h.mem_entries_iff.mp (mem_entries.mpr ⟨i, ?_, ?_⟩))
    · exact Array.getElem?_eq_getElem hi
    · exact Array.getElem?_eq_getElem hi'
  · rw [Array.getElem?_eq_none hi, Array.getElem?_eq_none (by omega)]
    rfl

/-! ## Making values -/

/-- A value is made for a missing key only. -/
theorem Sorted.enter_eq {t : TextIndex α} (h : t.Sorted) {m : Type → Type} [Monad m] (key : String) (make : m α) :
    ((t.find? key).isSome = true → ∃ i, t.values[i]? = t.find? key ∧ t.enter key make = pure (i, t)) ∧
      (t.find? key = none → ∃ i ≤ t.keys.size, t.enter key make = do
        let v ← make
        pure (i, ⟨t.keys.insertIdxIfInBounds i key, t.values.insertIdxIfInBounds i v⟩)) := by
  have hfits := h.place_fits key
  rw [TextIndex.enter]
  cases hplace : t.place key with
  | held i =>
    have hfind : t.find? key = t.values[i]? := by rw [find?, hplace]
    rw [hplace] at hfits
    refine ⟨fun _ => ⟨i, hfind.symm, rfl⟩, fun hnone => ?_⟩
    rw [hfind, Array.getElem?_eq_getElem hfits.2] at hnone
    cases hnone
  | missing i =>
    have hfind : t.find? key = none := by rw [find?, hplace]
    rw [hplace] at hfits
    refine ⟨fun hsome => ?_, fun _ => ⟨i, hfits.1, rfl⟩⟩
    rw [hfind] at hsome
    cases hsome

/-! ## Rows of accesses -/

/-- An index holds what accesses left, in byte order of the keys. -/
structure Keeps (accesses : List (Access α)) (t : TextIndex α) : Prop where
  ascending : t.keys.toList.Pairwise fun a b => bytes a < bytes b
  aligned : t.keys.size = t.values.size
  current : ∀ key, t.find? key = valueAfter key accesses
  known : ∀ key, (t.find? key).isSome = true ↔ ∃ a ∈ accesses, a.key = key
  once : t.keys.toList.map t.find? = t.values.toList.map some
  places : ∀ key, (t.place key).Fits t key

/-- Another access changes the value of its key and no other. It makes a value, by whatever action, only if there is
none. -/
structure Steps (t : TextIndex α) (a : Access α) : Prop where
  own : (t.access a).find? a.key = some (a.update ((t.find? a.key).getD a.fresh))
  others : ∀ key, key ≠ a.key → (t.access a).find? key = t.find? key
  held : ∀ {m : Type → Type} [Monad m] (make : m α), (t.find? a.key).isSome = true →
    ∃ i, t.values[i]? = t.find? a.key ∧ t.enter a.key make = pure (i, t)
  missing : ∀ {m : Type → Type} [Monad m] (make : m α), t.find? a.key = none →
    ∃ i ≤ t.keys.size, t.enter a.key make = do
      let v ← make
      pure (i, ⟨t.keys.insertIdxIfInBounds i a.key, t.values.insertIdxIfInBounds i v⟩)

/-- An index is a finite map: whatever is accessed, it keeps what the accesses leave. -/
theorem afterAll_keeps (accesses : List (Access α)) :
    Keeps accesses (afterAll accesses) ∧ ∀ a, Steps (afterAll accesses) a := by
  have hsorted := sorted_afterAll accesses
  have hfind := find?_afterAll accesses
  refine ⟨⟨?_, hsorted.aligned, hfind, fun key => ?_, hsorted.map_find?_keys, hsorted.place_fits⟩, fun a => ⟨?_,
    fun key hkey => ?_, fun make => (hsorted.enter_eq a.key make).1, fun make => (hsorted.enter_eq a.key make).2⟩⟩
  · exact hsorted.ascending.pairwise.imp lt_iff_bytes_lt.mp
  · rw [hfind, isSome_valueAfter]
  · rw [access, find?_alter hsorted, if_pos rfl]
  · rw [access, find?_alter hsorted, if_neg hkey]

/-- A key that comes twice keeps its place and counts both. -/
example : (afterAll [⟨"users", 0, (· + 1)⟩, ⟨"about", 0, (· + 2)⟩, ⟨"posts", 0, (· + 4)⟩,
    ⟨"about", 0, (· + 8)⟩]).entries = [("about", 10), ("posts", 4), ("users", 1)] := by decide +kernel

end TextIndex
end UriRouting

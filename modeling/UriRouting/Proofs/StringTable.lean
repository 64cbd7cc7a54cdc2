import Mathlib.Data.String.Basic
import UriRouting.StringTable
/-!
Looking up what was altered.

As entries ascend, a key that is smaller than the next one is not there. So `alter` changes the value of its key alone,
and what is found for a key is its one entry.
-/

namespace UriRouting
namespace StringTable

variable {α : Type}

/-! ## Ascending entries -/

theorem lookup_cons_eq (k k' : String) (v : α) (l : List (String × α)) :
    ((k', v) :: l).lookup k = if k = k' then some v else l.lookup k := by
  by_cases h : k = k'
  · rw [if_pos h, h, List.lookup_cons_self]
  · have hb : (k == k') = false := by simpa using h
    rw [if_neg h, List.lookup_cons, hb]

theorem lookup_eq_none {key : String} {l : List (String × α)} (h : ∀ e ∈ l, key < e.1) :
    l.lookup key = none := by
  rw [List.lookup_eq_none_iff]
  intro e he
  simpa using ne_of_lt (h e he)

theorem lookup_alterEntries {key : String} {f : Option α → α} {l : List (String × α)}
    (h : l.Pairwise fun a b => a.1 < b.1) (k : String) :
    (alterEntries key f l).lookup k
      = if k = key then some (f (l.lookup key)) else l.lookup k := by
  induction l with
  | nil => rw [alterEntries, lookup_cons_eq, List.lookup_nil, List.lookup_nil]
  | cons head rest ih =>
    obtain ⟨k', v⟩ := head
    obtain ⟨hk', hrest⟩ := List.pairwise_cons.mp h
    rw [alterEntries]
    split
    · next heq =>
      subst heq
      simp only [lookup_cons_eq, if_true]
      split <;> rfl
    · next hne =>
      split
      · next hlt =>
        have hnone : ((k', v) :: rest).lookup key = none := by
          refine lookup_eq_none fun e he => ?_
          obtain rfl | he := List.mem_cons.mp he
          · exact hlt
          · exact lt_trans hlt (hk' e he)
        rw [hnone, lookup_cons_eq]
      · rw [lookup_cons_eq, lookup_cons_eq, lookup_cons_eq, if_neg hne, ih hrest]
        by_cases hk : k = k'
        · rw [if_pos hk, if_pos hk, if_neg fun e => hne (e.symm.trans hk)]
        · rw [if_neg hk, if_neg hk]

theorem mem_iff_lookup {l : List (String × α)} (h : l.Pairwise fun a b => a.1 < b.1) {key : String}
    {v : α} : (key, v) ∈ l ↔ l.lookup key = some v := by
  induction l with
  | nil => simp
  | cons head rest ih =>
    obtain ⟨k, v'⟩ := head
    obtain ⟨hk, hrest⟩ := List.pairwise_cons.mp h
    have hmem := ih hrest
    rw [lookup_cons_eq, List.mem_cons]
    by_cases heq : key = k
    · subst heq
      rw [lookup_eq_none hk] at hmem
      simp [hmem, eq_comm]
    · simp [hmem, heq]

/-! ## Tables -/

variable (t : StringTable α)

/-- `alter` changes the value of its key and no other. -/
theorem find?_alter (key : String) (f : Option α → α) (k : String) :
    (t.alter key f).find? k = if k = key then some (f (t.find? key)) else t.find? k :=
  lookup_alterEntries t.ascending k

theorem find?_insertIfNew (key : String) (value : α) (k : String) :
    (t.insertIfNew key value).find? k = (t.find? k).or (if k = key then some value else none) := by
  rw [insertIfNew, find?_alter]
  by_cases hk : k = key
  · rw [if_pos hk, if_pos hk, hk]
    cases t.find? key <;> rfl
  · rw [if_neg hk, if_neg hk, Option.or_none]

/-- New entries count where a table has none, and the first of them with a key counts. -/
theorem find?_foldl_insertIfNew (entries : List (String × α)) (k : String) :
    (entries.foldl (fun t e => t.insertIfNew e.1 e.2) t).find? k = (t.find? k).or (entries.lookup k) := by
  induction entries generalizing t with
  | nil => exact (Option.or_none).symm
  | cons e entries ih =>
    rw [List.foldl_cons, ih, find?_insertIfNew, lookup_cons_eq, Option.or_assoc]
    congr 1
    split <;> rfl

theorem mem_entries_iff {t : StringTable α} {key : String} {v : α} : (key, v) ∈ t.entries ↔ t.find? key = some v :=
  mem_iff_lookup t.ascending

theorem mem_keys_iff {t : StringTable α} {key : String} : key ∈ t.keys ↔ t.contains key = true := by
  have hfind : t.contains key = true ↔ ∃ v, t.find? key = some v := Option.isSome_iff_exists
  rw [hfind, keys, List.mem_map]
  constructor
  · intro hkey
    obtain ⟨⟨_, v⟩, hmem, rfl⟩ := hkey
    exact ⟨v, mem_entries_iff.mp hmem⟩
  · intro hkey
    obtain ⟨v, hv⟩ := hkey
    exact ⟨(key, v), mem_entries_iff.mpr hv, rfl⟩

end StringTable
end UriRouting

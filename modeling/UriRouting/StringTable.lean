/-!
Tables with text keys, kept in ascending order of the keys.

Keys are compared character by character by code point. A table carries the order of its entries, so that no key has
two of them. `alter` is the one way to change a table: it tells whether the key was there, and leaves every other entry
alone.
-/

namespace UriRouting

/-- Entries with different keys in ascending order. -/
structure StringTable (α : Type) where
  entries : List (String × α)
  ascending : entries.Pairwise fun a b => a.1 < b.1
  deriving Repr

namespace StringTable

variable {α β : Type}

def empty : StringTable α := ⟨[], .nil⟩

instance : EmptyCollection (StringTable α) := ⟨empty⟩

def find? (t : StringTable α) (key : String) : Option α := t.entries.lookup key

def contains (t : StringTable α) (key : String) : Bool := (t.find? key).isSome

def keys (t : StringTable α) : List String := t.entries.map (·.1)

def values (t : StringTable α) : List α := t.entries.map (·.2)

/-! ## Changes -/

/-- Sets the value of a key among ordered entries to what `f` makes of its value before. -/
def alterEntries (key : String) (f : Option α → α) : List (String × α) → List (String × α)
  | [] => [(key, f none)]
  | (k, v) :: rest =>
    if key = k then (k, f (some v)) :: rest
    else if key < k then (key, f none) :: (k, v) :: rest
    else (k, v) :: alterEntries key f rest

theorem key_of_mem_alterEntries {key : String} {f : Option α → α} {l : List (String × α)} {e : String × α}
    (he : e ∈ alterEntries key f l) : e.1 = key ∨ ∃ e' ∈ l, e'.1 = e.1 := by
  induction l with
  | nil =>
    rw [alterEntries, List.mem_singleton] at he
    exact Or.inl (congrArg Prod.fst he)
  | cons head rest ih =>
    obtain ⟨k, v⟩ := head
    rw [alterEntries] at he
    split at he
    · obtain rfl | he := List.mem_cons.mp he
      · exact Or.inr ⟨(k, v), List.mem_cons_self, rfl⟩
      · exact Or.inr ⟨e, List.mem_cons_of_mem _ he, rfl⟩
    · split at he
      · obtain rfl | he := List.mem_cons.mp he
        · exact Or.inl rfl
        · exact Or.inr ⟨e, he, rfl⟩
      · obtain rfl | he := List.mem_cons.mp he
        · exact Or.inr ⟨(k, v), List.mem_cons_self, rfl⟩
        · obtain h | ⟨e', he', h⟩ := ih he
          · exact Or.inl h
          · exact Or.inr ⟨e', List.mem_cons_of_mem _ he', h⟩

/-- Entries in ascending order stay so. -/
theorem ascending_alterEntries {key : String} {f : Option α → α} {l : List (String × α)}
    (h : l.Pairwise fun a b => a.1 < b.1) : (alterEntries key f l).Pairwise fun a b => a.1 < b.1 := by
  induction l with
  | nil => exact List.pairwise_singleton _ _
  | cons head rest ih =>
    obtain ⟨k, v⟩ := head
    obtain ⟨hk, hrest⟩ := List.pairwise_cons.mp h
    rw [alterEntries]
    split
    · exact List.pairwise_cons.mpr ⟨hk, hrest⟩
    · next hne =>
      split
      · next hlt =>
        refine List.pairwise_cons.mpr ⟨fun e he => ?_, h⟩
        obtain rfl | he := List.mem_cons.mp he
        · exact hlt
        · exact String.lt_trans hlt (hk e he)
      · next hlt =>
        have hkey : k < key := Std.lt_of_le_of_ne (String.not_lt.mp hlt) (Ne.symm hne)
        refine List.pairwise_cons.mpr ⟨fun e he => ?_, ih hrest⟩
        obtain h | ⟨e', he', h⟩ := key_of_mem_alterEntries he
        · rw [h]
          exact hkey
        · rw [← h]
          exact hk e' he'

def alter (t : StringTable α) (key : String) (f : Option α → α) : StringTable α :=
  ⟨alterEntries key f t.entries, ascending_alterEntries t.ascending⟩

def insert (t : StringTable α) (key : String) (value : α) : StringTable α := t.alter key fun _ => value

def insertIfNew (t : StringTable α) (key : String) (value : α) : StringTable α :=
  t.alter key (·.getD value)

/-- The table of a list of entries, where the last one of a key counts. -/
def ofList (entries : List (String × α)) : StringTable α :=
  entries.foldl (fun t e => t.insert e.1 e.2) empty

@[simp] theorem find?_empty (key : String) : (empty : StringTable α).find? key = none := rfl

end StringTable

end UriRouting

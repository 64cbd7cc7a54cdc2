/-!
An index: texts as keys in ascending order, each with a value.

Keys and values stand in two rows, each value at the place of its key. Places are found by halving the row of keys;
the search for a missing key ends where the key belongs. `enter` puts in what is missing, and `alter` updates it.
-/

namespace UriRouting

/-- Texts in ascending order, and a value for each at the same place of a second row. -/
structure TextIndex (α : Type) where
  keys : Array String
  values : Array α
  deriving Repr

namespace TextIndex

/-- Where a key is, or where it would have to be inserted. -/
inductive Place
  | held (i : Nat)
  | missing (i : Nat)
  deriving DecidableEq, Repr

/-- Searches the keys from `low` up to `high`, of which it leaves out one half and the middle in each step. -/
def search (keys : Array String) (key : String) (low high : Nat) (within : high ≤ keys.size) : Place :=
  if h : low < high then
    let middle := low + (high - low) / 2
    have hmiddle : middle < keys.size := by omega
    if keys[middle] < key then search keys key (middle + 1) high within
    else if keys[middle] = key then .held middle
    else search keys key low middle (Nat.le_of_lt hmiddle)
  else .missing low
termination_by high - low

variable {α β : Type}

def empty : TextIndex α := ⟨#[], #[]⟩

instance : EmptyCollection (TextIndex α) := ⟨empty⟩

def place (t : TextIndex α) (key : String) : Place := search t.keys key 0 t.keys.size (Nat.le_refl _)

def find? (t : TextIndex α) (key : String) : Option α :=
  match t.place key with
  | .held i => t.values[i]?
  | .missing _ => none

def entries (t : TextIndex α) : List (String × α) := t.keys.toList.zip t.values.toList

/-- Finds the place of the value of a key. A key that is missing is put in where it belongs, with a value that `make`
gives. -/
def enter {m : Type → Type} [Monad m] (t : TextIndex α) (key : String) (make : m α) : m (Nat × TextIndex α) :=
  match t.place key with
  | .held i => pure (i, t)
  | .missing i => do
    let v ← make
    pure (i, ⟨t.keys.insertIdxIfInBounds i key, t.values.insertIdxIfInBounds i v⟩)

/-- Updates the value of a key, which is `fresh` where the key is missing. -/
def alter (t : TextIndex α) (key : String) (fresh : α) (update : α → α) : TextIndex α :=
  let (i, t) := Id.run (t.enter key (pure fresh))
  { t with values := t.values.modify i update }

@[simp] theorem find?_empty (key : String) : (empty : TextIndex α).find? key = none := by
  rw [find?, place, search]
  rfl

end TextIndex

end UriRouting

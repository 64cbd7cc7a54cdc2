/-!
A cache for one value.

The cache can be told to hide its value from some of the next reads, as a cache may that is not always
at hand.
-/

namespace UriRouting

/-- A place for a value, with a mark for each of the next reads: whether it will find the place empty. -/
structure Cache (ρ : Type) where
  value? : Option ρ
  hidden : List Bool := []
  deriving DecidableEq, Repr

namespace Cache

variable {ρ : Type}

def empty : Cache ρ := ⟨none, []⟩

def read (c : Cache ρ) : Option ρ × Cache ρ :=
  match c.hidden with
  | [] => (c.value?, c)
  | hides :: hidden => (if hides then none else c.value?, { c with hidden })

def store (c : Cache ρ) (value : ρ) : Cache ρ := { c with value? := some value }

def clear (c : Cache ρ) : Cache ρ := { c with value? := none }

/-- Marks the next reads; those after them find the value. -/
def hideFrom (c : Cache ρ) (reads : List Bool) : Cache ρ := { c with hidden := reads }

/-- Hides the value from the next `n` reads. -/
def hide (c : Cache ρ) (n : Nat) : Cache ρ := c.hideFrom (List.replicate n true)

/-- The cache for display; hiding does not show. -/
def describe (c : Cache ρ) : String :=
  "MemoryRouteCache \x7b cached: " ++ (if c.value?.isSome then "true" else "false") ++ " \x7d"

end Cache

end UriRouting

/-!
Cutting text at a separator and trimming its ends.

Everything is on lists of characters. Splitting always gives at least one piece, and joining the
pieces with the separator gives the text back.
-/

namespace UriRouting.Text

/-! ## Splitting -/

def splitAt (sep : Char) : List Char → List (List Char)
  | [] => [[]]
  | c :: cs =>
    if c = sep then [] :: splitAt sep cs
    else match splitAt sep cs with
      | [] => [[c]]
      | piece :: rest => (c :: piece) :: rest

def joinWith (sep : Char) : List (List Char) → List Char
  | [] => []
  | [piece] => piece
  | piece :: rest => piece ++ sep :: joinWith sep rest

theorem splitAt_ne_nil (sep : Char) (cs : List Char) : splitAt sep cs ≠ [] := by
  cases cs with
  | nil => simp [splitAt]
  | cons c cs =>
    unfold splitAt
    split
    · simp
    · split <;> simp

theorem joinWith_splitAt (sep : Char) (cs : List Char) : joinWith sep (splitAt sep cs) = cs := by
  induction cs with
  | nil => rfl
  | cons c cs ih =>
    unfold splitAt
    have hne := splitAt_ne_nil sep cs
    split
    · next h =>
      cases hs : splitAt sep cs with
      | nil => exact absurd hs hne
      | cons piece rest => rw [hs] at ih; simp [joinWith, ih, h]
    · cases hs : splitAt sep cs with
      | nil => exact absurd hs hne
      | cons piece rest =>
        rw [hs] at ih
        cases rest <;> simp_all [joinWith]

theorem splitAt_of_not_mem {sep : Char} {cs : List Char} (h : sep ∉ cs) : splitAt sep cs = [cs] := by
  induction cs with
  | nil => rfl
  | cons c cs ih =>
    obtain ⟨hc, hcs⟩ := List.ne_and_not_mem_of_not_mem_cons h
    rw [splitAt, if_neg (Ne.symm hc), ih hcs]

/-- Splitting goes piece by piece. -/
theorem splitAt_append_cons (sep : Char) (front back : List Char) :
    splitAt sep (front ++ sep :: back) = splitAt sep front ++ splitAt sep back := by
  induction front with
  | nil => simp [splitAt]
  | cons c front ih =>
    rw [List.cons_append, splitAt, splitAt, ih]
    split
    · rfl
    · cases hfront : splitAt sep front with
      | nil => exact absurd hfront (splitAt_ne_nil sep front)
      | cons piece rest => rfl

/-! ## Trimming -/

def trimEnd (p : Char → Bool) (cs : List Char) : List Char := (cs.reverse.dropWhile p).reverse

/-- Drops the longest start and then the longest end whose characters all satisfy `p`. -/
def trimBoth (p : Char → Bool) (cs : List Char) : List Char := trimEnd p (cs.dropWhile p)

end UriRouting.Text

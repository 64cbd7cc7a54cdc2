import Mathlib.Data.List.Induction
import UriRouting.Http.Method
/-!
Lists of methods, and how a header names them.

The union of methods holds each once, where it first occurs. The names of methods hold neither commas
nor controls, so that the text of a header can be cut back into them.
-/

namespace UriRouting

/-! ## Unions -/

namespace Method

theorem addNew_eraseDups (methods : List Method) (m : Method) :
    addNew methods.eraseDups m = (methods ++ [m]).eraseDups := by
  rw [addNew, List.eraseDups_append]
  by_cases h : m ∈ methods
  · rw [if_pos (List.mem_eraseDups.mpr h)]
    simp [List.removeAll, h]
  · rw [if_neg fun h' => h (List.mem_eraseDups.mp h')]
    simp [List.removeAll, h, List.eraseDups_cons]

theorem union_eraseDups (methods more : List Method) :
    union methods.eraseDups more = (methods ++ more).eraseDups := by
  induction more generalizing methods with
  | nil =>
    rw [List.append_nil]
    rfl
  | cons m more ih =>
    show union (addNew methods.eraseDups m) more = _
    rw [addNew_eraseDups, ih, List.append_assoc]
    rfl

end Method

/-- The pieces of a text between the occurrences of a separator, found from the left. -/
def splitBy (sep : List Char) : List Char → List (List Char)
  | [] => [[]]
  | c :: cs =>
    if sep.isPrefixOf (c :: cs) then [] :: splitBy sep (cs.drop (sep.length - 1))
    else (splitBy sep cs).modifyHead (c :: ·)
  termination_by cs => cs.length
  decreasing_by all_goals simp only [List.length_drop, List.length_cons]; omega

section

variable {c : Char} {sep : List Char}

end

/-! ## Headers -/

end UriRouting

import UriRouting.Proofs.Router.ListRules
import UriRouting.Proofs.Template.Numerals
/-!
Lists of numbers.

A number is listed without quotes. Its value is the parameter, so that segments are compared with the value as it is
printed and not with what was written: `ListRule.number_matches`.
-/

namespace UriRouting

open Numeric

/-! ## Reading them back -/

theorem Numeral.stretch (q : Numeral) (depth : Nat) : Stretch depth [] [')', ')'] q.spelling.toList q.token := by
  rw [spelling, token, spelling, String.toList_ofList]
  have hdigits := q.wholeDigits
  have hstop : Stops isDigit [')', ')'] := rfl
  unfold chars
  split
  · exact .digits hdigits rfl hstop fun more hmore => by cases hmore
  · next cs hfraction => exact .fraction hdigits (q.fractionDigits cs (hfraction ▸ rfl)) rfl hstop

theorem readInList_numeral (q : Numeral) : ReadInList q.spelling [q.token] := fun n _ =>
  .token (q.stretch n.depth) (.mark rfl (.mark rfl .done))

theorem spellsParams_numeral (q : Numeral) : SpellsParams [q.value] ([q.token] ++ [markToken ')']) :=
  .some (.last ⟨q.token, rfl, .number rfl q.number?_token⟩ rfl)

namespace ListRule

variable (rule : ListRule)

/-- Any number can be listed. The path registers, its variable has the rule with the value of the number, and a search
for a method of the route finds it, for every host, where the path is one segment that is not empty and that the rule
takes when it compares with the value as it is printed. That is the number as it was written when it has no needless
zeros and fits an integer or has few digits, and never when it has needless zeros. -/
theorem number_matches {α : Type} (methods : List Method) (action : α) (q : Numeral) :
    ∃ (p : Param) (r : Router α) (e : Entry α), q.token.number? = some p ∧
      Router.tryInsert methods (rule.pathFor q.spelling) action (.empty .default {}) = .ok 1 r ∧
      r.entries = [e] ∧ e.route = .new methods (.ofPath (rule.pathFor q.spelling)) action ∧
      e.template = ⟨none, [.delimiter, .var ⟨"v", [⟨rule.name, some [p]⟩]⟩]⟩ ∧
      (∀ req : Request, (methods = [] ∨ req.method ∈ methods) →
        (r.find req).exhausted = false ∧
        (r.find req).result = match segmentsOfPath req.path with
          | [segment] =>
            if segment ≠ "" ∧ rule.Takes [p.text] segment then .found e [("v", segment)] else .notFound
          | _ => .notFound) ∧
      (NoNeedlessZeros q.chars → q.FitsInteger ∨ q.HasFewDigits → p.text = q.spelling) ∧
      (¬ NoNeedlessZeros q.chars → p.text ≠ q.spelling) := by
  obtain ⟨r, e, hinsert, hentries, hroute, htemplate, hfind⟩ :=
    rule.list_matches methods action (readInList_numeral q) (spellsParams_numeral q)
  refine ⟨q.value, r, e, q.number?_token, hinsert, hentries, hroute, htemplate, hfind, Numeral.text_value, ?_⟩
  intro hzeros htext
  have hprinted := q.noNeedlessZeros_value
  rw [htext, Numeral.spelling, String.toList_ofList] at hprinted
  exact hzeros hprinted

/-- Whether a search for a segment finds the route for a list with what is written so, when it registers. -/
def finds? (rule : ListRule) (written : String) : Option Bool :=
  match Router.tryInsert [.get] (rule.pathFor written) "page" (.empty .default {}) with
  | .ok _ r => some (r.find ⟨.get, "", "/" ++ written, .empty⟩).result.found?.isSome
  | .error _ _ => none

def padded : Numeral where
  whole := ['0', '0', '7']
  fraction? := none
  wholeDigits := ⟨List.cons_ne_nil _ _, List.all_eq_true.mp rfl⟩
  fractionDigits := fun _ hcs => nomatch hcs

def rounded : Numeral where
  whole := ['1']
  fraction? := some ['5', '0']
  wholeDigits := ⟨List.cons_ne_nil _ _, List.all_eq_true.mp rfl⟩
  fractionDigits := fun _ hcs => Option.some.inj hcs ▸ ⟨List.cons_ne_nil _ _, List.all_eq_true.mp rfl⟩

/-- Zeros in front and a zero at the end: the segment that was listed is rejected, and the one that was excluded taken. -/
theorem needless_zeros_astray :
    (padded.spelling = "007" ∧ among.finds? "007" = some false ∧ outside.finds? "007" = some true) ∧
      rounded.spelling = "1.50" ∧ among.finds? "1.50" = some false ∧ outside.finds? "1.50" = some true := by
  refine ⟨⟨rfl, ?_, ?_⟩, rfl, ?_, ?_⟩ <;> decide +kernel

end ListRule

end UriRouting

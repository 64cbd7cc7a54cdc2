import UriRouting.Proofs.Router.ListRules
/-!
Lists of texts.

Any texts can be listed in a template: each between quotes, with a backslash before what would end it. They are
read back as they were, and a route for such a variable takes the segments that the list tells:
`ListRule.textList_matches`.
-/

namespace UriRouting

open Text

/-! ## Writing texts -/

/-- A text, and the quote that it is written with. -/
structure Quotation where
  quote : Char
  mark : isQuote quote = true
  value : String

namespace Quotation

/-- A backslash stands before each backslash and each of the quotes. -/
def inside (q : Quotation) : List Char :=
  q.value.toList.flatMap fun c => if c = '\\' ∨ c = q.quote then ['\\', c] else [c]

def spelling (q : Quotation) : String := String.ofList (q.quote :: (q.inside ++ [q.quote]))

def token (q : Quotation) : Token := ⟨.quotedString, q.value⟩

def param (q : Quotation) : Param := .str q.value

theorem unescapes (q : Quotation) : Unescapes q.quote q.inside q.value.toList := by
  rw [inside]
  induction q.value.toList with
  | nil => exact .nil
  | cons c cs ih =>
    rw [List.flatMap_cons]
    split
    · exact .escaped ih
    · next hplain =>
      rw [not_or] at hplain
      exact .plain hplain.1 hplain.2 ih

end Quotation

namespace ListRule

/-- The path of a variable `v` with the rule for these texts. -/
def path (rule : ListRule) (items : List Quotation) : String :=
  "/:v(" ++ rule.name ++ "(" ++ ", ".intercalate (items.map Quotation.spelling) ++ "))"

/-- Each text has its own quote. -/
example : among.path [⟨'"', rfl, "6\" tall"⟩, ⟨'\'', rfl, "it's, [/]"⟩, ⟨'\'', rfl, "\\"⟩]
    = "/:v(in(\"6\\\" tall\", 'it\\'s, [/]', '\\\\'))" := by decide

end ListRule

/-! ## Reading them back -/

/-- Quotations between commas. -/
def listChars (items : List Quotation) : List Char := (", ".intercalate (items.map Quotation.spelling)).toList

def listTokens (items : List Quotation) : List Token := (items.map Quotation.token).intersperse (markToken ',')

theorem listChars_cons_cons (q q' : Quotation) (items : List Quotation) :
    listChars (q :: q' :: items) = q.spelling.toList ++ ',' :: ' ' :: listChars (q' :: items) := by
  simp [listChars, String.intercalate_cons_cons]

section

variable {n : Nesting} {cs : List Char} {tokens : List Token}

theorem Reads.quotation (q : Quotation) (deep : 0 < n.depth)
    (rest : ∀ n : Nesting, 0 < n.depth → Reads n [] cs tokens) :
    Reads n [] (q.spelling.toList ++ cs) (q.token :: tokens) := by
  have hdepth : 0 < (n.step q.token).depth := by
    rwa [Nesting.step_depth (by simp [Quotation.token])]
  have hstretch : Stretch n.depth [] cs q.spelling.toList q.token := by
    rw [Quotation.spelling, String.toList_ofList, Quotation.token, ← String.ofList_toList (s := q.value)]
    exact .quoted q.mark deep q.unescapes
  exact .token hstretch (rest _ hdepth)

/-- Inside parentheses, quotations are read one by one, and leave no text open. -/
theorem Reads.quotations (items : List Quotation) (deep : 0 < n.depth)
    (rest : ∀ n : Nesting, Reads n [] cs tokens) :
    Reads n [] (listChars items ++ cs) (listTokens items ++ tokens) := by
  induction items generalizing n with
  | nil => exact rest n
  | cons q items ih =>
    cases items with
    | nil => exact .quotation q deep fun n _ => rest n
    | cons q' items =>
      rw [listChars_cons_cons, List.append_assoc]
      -- the space behind a comma is in no token
      refine .quotation q deep fun n hn => .mark rfl (.space (ih ?_))
      change 0 < (n.step (markToken ',')).depth
      exact hn

end

theorem readInList_quotations (items : List Quotation) :
    ReadInList (", ".intercalate (items.map Quotation.spelling)) (listTokens items) := fun _ deep =>
  .quotations items deep fun _ => .mark rfl (.mark rfl .done)

theorem spellsParams_quotations (items : List Quotation) :
    SpellsParams (items.map Quotation.param) (listTokens items ++ [markToken ')']) := by
  have hparam : ∀ q : Quotation, SpellsParam q.param [q.token] := fun q => ⟨q.token, rfl, .quoted rfl⟩
  have hlisted : ∀ (q : Quotation) (items : List Quotation),
      Listed SpellsParam ((q :: items).map Quotation.param) (listTokens (q :: items) ++ [markToken ')']) := by
    intro q items
    induction items generalizing q with
    | nil => exact .last (hparam q) rfl
    | cons q' items ih =>
      have hmore : Listed SpellsParam (q.param :: (q' :: items).map Quotation.param)
          ([q.token] ++ markToken ',' :: (listTokens (q' :: items) ++ [markToken ')'])) :=
        .more (hparam q) rfl (ih q')
      exact hmore
  cases items with
  | nil => exact .none rfl
  | cons q items => exact .some (hlisted q items)

namespace ListRule

variable (rule : ListRule) (items : List Quotation)

/-- Any texts can be listed. The path registers, its variable has the rule with exactly these texts, and a search
for a method of the route finds it, for every host, where the path is one segment that is not empty and that the
rule takes. -/
theorem textList_matches {α : Type} (methods : List Method) (action : α) :
    ∃ (r : Router α) (e : Entry α), Router.tryInsert methods (rule.path items) action (.empty .default {}) = .ok 1 r ∧
      r.entries = [e] ∧ e.route = .new methods (.ofPath (rule.path items)) action ∧
      e.template = ⟨none, [.delimiter, .var ⟨"v", [⟨rule.name, some (items.map fun q => .str q.value)⟩]⟩]⟩ ∧
      ∀ req : Request, (methods = [] ∨ req.method ∈ methods) →
        (r.find req).exhausted = false ∧
        (r.find req).result = match segmentsOfPath req.path with
          | [segment] =>
            if segment ≠ "" ∧ rule.Takes (items.map Quotation.value) segment then .found e [("v", segment)]
            else .notFound
          | _ => .notFound := by
  have htexts : (items.map Quotation.param).map Param.text = items.map Quotation.value := by
    rw [List.map_map]
    rfl
  have hmatches := rule.list_matches methods action (readInList_quotations items) (spellsParams_quotations items)
  rw [htexts] at hmatches
  exact hmatches

end ListRule

end UriRouting

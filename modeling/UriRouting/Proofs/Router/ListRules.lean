import UriRouting.Proofs.Router.SingleRows
import UriRouting.Proofs.Template.Readings
/-!
Variables that are one of several values, or none of them.

Such a rule compares texts. A route for one variable with such a rule takes the segments that the list tells, however
its values are written in the template: `ListRule.list_matches`.
-/

namespace UriRouting

open Text

/-- The rules that compare a value with a list of texts. -/
inductive ListRule
  | among
  | outside

namespace ListRule

def name : ListRule → String
  | among => "in"
  | outside => "notIn"

def Takes (texts : List String) (value : String) : ListRule → Prop
  | among => value ∈ texts
  | outside => value ∉ texts

instance (texts : List String) (value : String) : (rule : ListRule) → Decidable (rule.Takes texts value)
  | among => inferInstanceAs (Decidable (value ∈ texts))
  | outside => inferInstanceAs (Decidable (value ∉ texts))

/-- The path of a variable `v` with the rule for what is written. -/
def pathFor (rule : ListRule) (written : String) : String := "/:v(" ++ rule.name ++ "(" ++ written ++ "))"

end ListRule

/-! ## Reading them back -/

def markToken (c : Char) : Token := ⟨.punctuation, String.ofList [c]⟩

theorem markToken_opening : (markToken '(').isPunctuation "(" = true := rfl

/-- Characters that are text wherever they stand. -/
def isPlainChar (c : Char) : Bool :=
  c ≠ ' ' && c ≠ ':' && !isPunctuationChar c && !isQuote c && !Numeric.isDigit c

section

variable {n : Nesting} {text cs : List Char} {tokens : List Token}

theorem Reads.mark {c : Char} (mark : isPunctuationChar c = true)
    (rest : Reads (nest n (textTokens text ++ [markToken c])) [] cs tokens) :
    Reads n text (c :: cs) (textTokens text ++ markToken c :: tokens) := .token (.punctuation mark) rest

theorem Reads.word {word : List Char} (h : ∀ c ∈ word, isPlainChar c = true)
    (rest : Reads n (text ++ word) cs tokens) : Reads n text (word ++ cs) tokens := by
  induction word generalizing text with
  | nil => rwa [List.append_nil] at rest
  | cons c word ih =>
    obtain ⟨hc, hword⟩ := List.forall_mem_cons.mp h
    simp only [isPlainChar, ne_eq, Bool.and_eq_true, Bool.not_eq_true', decide_eq_true_eq] at hc
    obtain ⟨⟨⟨⟨hspace, hcolon⟩, hmark⟩, hquote⟩, hdigit⟩ := hc
    refine .letter ⟨hspace, hmark, fun h => absurd h hcolon, fun h => ?_, fun h => ?_⟩ ?_
    · rw [hquote] at h
      cases h
    · rw [hdigit] at h
      cases h
    · exact ih hword (by rwa [List.append_assoc])

end

/-- What is written is read as these tokens, where a list ends behind it. -/
def ReadInList (written : String) (tokens : List Token) : Prop :=
  ∀ n : Nesting, 0 < n.depth →
    Reads n [] (written.toList ++ [')', ')']) (tokens ++ [markToken ')', markToken ')'])

namespace ListRule

variable (rule : ListRule)

def tokens (listed : List Token) : List Token :=
  slashToken :: ⟨.var, "v"⟩ :: markToken '(' :: ⟨.text, rule.name⟩ :: markToken '(' ::
    (listed ++ [markToken ')', markToken ')'])

theorem plain_name : ∀ c ∈ rule.name.toList, isPlainChar c = true := by
  have hall : rule.name.toList.all isPlainChar = true := by cases rule <;> decide
  exact List.all_eq_true.mp hall

variable {written : String} {listed : List Token}

theorem reads_call (h : ReadInList written listed) {n : Nesting} (deep : 0 < n.depth) :
    Reads n [] (rule.name.toList ++ '(' :: (written.toList ++ [')', ')']))
      (⟨.text, rule.name⟩ :: markToken '(' :: (listed ++ [markToken ')', markToken ')'])) := by
  have hdepth : 0 < (nest n (textTokens rule.name.toList ++ [markToken '('])).depth := by
    rw [nest_concat]
    simp [Nesting.step, markToken_opening, nest_textTokens_depth, deep]
  have hname : textTokens rule.name.toList = [⟨.text, rule.name⟩] := by cases rule <;> rfl
  have hlist : Reads n rule.name.toList ('(' :: (written.toList ++ [')', ')'])) _ := .mark rfl (h _ hdepth)
  rw [hname] at hlist
  exact .word rule.plain_name hlist

theorem lex_pathFor (h : ReadInList written listed) : lex (rule.pathFor written) = .ok (rule.tokens listed) := by
  have hpath : (rule.pathFor written).toList
      = '/' :: (":v".toList ++ '(' :: (rule.name.toList ++ '(' :: (written.toList ++ [')', ')']))) := by
    simp [pathFor]
  have hname : Stretch 0 [] ('(' :: (rule.name.toList ++ '(' :: (written.toList ++ [')', ')']))) ":v".toList
      ⟨.var, "v"⟩ :=
    .var (show IsName ['v'] from ⟨rfl, List.forall_mem_singleton.mpr rfl⟩) (by decide) rfl
  rw [lex_reads_iff, hpath]
  refine .mark rfl (.token hname (.mark rfl (rule.reads_call h ?_)))
  exact Nat.one_pos

/-! ## Parsing them -/

variable {params : List Param}

def slot (rule : ListRule) (params : List Param) : Slot := ⟨"v", [⟨rule.name, some params⟩]⟩

theorem ofString_pathFor (h : ReadInList written listed) (hparams : SpellsParams params (listed ++ [markToken ')'])) :
    Template.ofString (rule.pathFor written) = .ok ⟨none, [.delimiter, .var (rule.slot params)]⟩ := by
  have hname : (⟨.text, rule.name⟩ : Token).kind = .text := rfl
  have hcall : Listed SpellsCall [⟨rule.name, some params⟩]
      (⟨.text, rule.name⟩ :: markToken '(' :: (listed ++ [markToken ')']) ++ [markToken ')']) :=
    .last (.named hname (.some markToken_opening hparams)) rfl
  have hvar : (⟨.var, "v"⟩ : Token).role .path false = .var := rfl
  have hrow : SpellsRow .path false false [.delimiter, .var (rule.slot params)] (rule.tokens listed) := by
    have hruled : SpellsRow .path false false [.var (rule.slot params)] _ := .ruled hvar markToken_opening hcall .nil
    rw [tokens]
    refine .delimiter rfl ?_
    simpa using hruled
  exact ofString_ok_iff.mpr ⟨_, rule.lex_pathFor h, (spelledBy_of_slash rfl).mpr ⟨rfl, hrow⟩⟩

theorem path_ofPath : (UriTemplate.ofPath (rule.pathFor written)).path = rule.pathFor written := by
  rw [← String.toList_inj]
  simp [UriTemplate.ofPath, pathFor, UriTemplate.isSlash]

/-! ## Finding them -/

def made (texts : List String) : ListRule → Rule
  | among => .oneOf texts
  | outside => .noneOf texts

def listedVariable (rule : ListRule) (params : List Param) : Variable :=
  ⟨"v", [(⟨rule.name, params⟩, rule.made (params.map Param.text))]⟩

theorem create_eq : RuleFactory.default.create rule.name params = .ok (rule.made (params.map Param.text)) := by
  cases rule <;> rfl

theorem expand_slot : (⟨.default, {}, fun _ => []⟩ : Compiler).expand .path [.delimiter, .var (rule.slot params)]
    = .ok [[.pattern ⟨[.var (rule.listedVariable params)]⟩]] := by
  have hvar : (⟨.default, {}, fun _ => []⟩ : Compiler).variableOf (rule.slot params)
      = .ok (rule.listedVariable params) := by
    simp only [Compiler.variableOf, slot, Compiler.specOf, List.map_cons, List.map_nil, List.append_nil,
      Option.getD_some, List.mapM_cons, List.mapM_nil, Compiler.checkOf, create_eq]
    rfl
  rw [Compiler.expand_eq]
  simp only [Compiler.resolve, Compiler.resolvePart, hvar]
  rfl

theorem captureRow?_listed (segments : List String) :
    captureRow? [.pattern ⟨[.var (rule.listedVariable params)]⟩] segments = match segments with
      | [value] => if value ≠ "" ∧ rule.Takes (params.map Param.text) value then some [("v", value)] else none
      | _ => none := by
  have haccepts : ∀ value, (rule.listedVariable params).accepts value = true ↔
      value ≠ "" ∧ rule.Takes (params.map Param.text) value := by
    intro value
    cases rule <;> simp [Variable.accepts, listedVariable, made, Rule.accepts, Takes]
  rcases segments with _ | ⟨value, _ | ⟨value', segments⟩⟩
  · rfl
  · rw [captureRow?, Key.capture?, capture?_lone, captureRow?]
    by_cases htakes : value ≠ "" ∧ rule.Takes (params.map Param.text) value
    · rw [if_pos ((haccepts value).mpr htakes)]
      exact (if_pos htakes).symm
    · rw [if_neg (mt (haccepts value).mp htakes)]
      exact (if_neg htakes).symm
  · simp [captureRow?]

/-- The path of a list registers, its variable has the rule with what is listed, and a search for a method of the
route finds it, for every host, where the path is one segment that is not empty and that the rule takes. -/
theorem list_matches {α : Type} (methods : List Method) (action : α) (h : ReadInList written listed)
    (hparams : SpellsParams params (listed ++ [markToken ')'])) :
    ∃ (r : Router α) (e : Entry α),
      Router.tryInsert methods (rule.pathFor written) action (.empty .default {}) = .ok 1 r ∧
      r.entries = [e] ∧ e.route = .new methods (.ofPath (rule.pathFor written)) action ∧
      e.template = ⟨none, [.delimiter, .var (rule.slot params)]⟩ ∧
      ∀ req : Request, (methods = [] ∨ req.method ∈ methods) →
        (r.find req).exhausted = false ∧
        (r.find req).result = match segmentsOfPath req.path with
          | [segment] =>
            if segment ≠ "" ∧ rule.Takes (params.map Param.text) segment then .found e [("v", segment)]
            else .notFound
          | _ => .notFound := by
  have hreads := rule.ofString_pathFor h hparams
  rw [← rule.path_ofPath] at hreads
  obtain ⟨r, e, hinsert, hentries, hroute, htemplate, hfind⟩ :=
    Router.tryInsert_single methods action hreads rule.expand_slot
  refine ⟨r, e, hinsert, hentries, hroute, htemplate, fun req hmethod => ?_⟩
  obtain ⟨hexhausted, hresult⟩ := hfind (by rw [List.length_singleton]; decide) req hmethod
  refine ⟨hexhausted, hresult.trans ?_⟩
  rw [captureRow?_listed]
  rcases segmentsOfPath req.path with _ | ⟨segment, _ | ⟨segment', segments⟩⟩
  · rfl
  · by_cases htakes : segment ≠ "" ∧ rule.Takes (params.map Param.text) segment
    · simp [htakes]
    · simp [htakes]
  · rfl

end ListRule

end UriRouting

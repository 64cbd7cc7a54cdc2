import UriRouting.Proofs.Template.Texts
/-!
The grammar of templates.

The relations say which tokens spell the parameters of a rule, the rules of a variable, a row of parts
and a template. They are written without the reader of tokens; `spellsRow_cons` says how the first
token of a row decides what may follow. `SpellsRow.readsBack` says that nothing of the tokens is lost: a
row that is read from left to right gives each of them in turn.
-/

namespace UriRouting

open Text

/-! ## Tokens -/

/-- What a token is for a row of parts. -/
inductive Role
  | delimiter
  | opening
  | closing
  | var
  /-- A number in a host, whose periods separate labels. -/
  | labels
  | text
  deriving DecidableEq

def Side.mark : Side → String
  | host => "."
  | path => "/"

/-- What a token is for a row. In a path where no optional part is open, a closing bracket is a text. -/
def Token.role (side : Side) (nested : Bool) (t : Token) : Role :=
  match t.kind, side with
  | .punctuation, _ =>
    if t.value = side.mark then .delimiter
    else if t.value = "[" then .opening
    else if t.value = "]" ∧ (side = .host ∨ nested = true) then .closing
    else .text
  | .var, _ => .var
  | .number, .host => .labels
  | _, _ => .text

/-- The role of a token tells what the token is. -/
theorem Token.role_spec (side : Side) (nested : Bool) (t : Token) :
    match t.role side nested with
    | .delimiter => t.isPunctuation side.mark = true
    | .opening => t.isPunctuation "[" = true
    | .closing => t.isPunctuation "]" = true ∧ (side = .host ∨ nested = true)
    | .var => t.kind = .var
    | .labels => t.kind = .number ∧ side = .host
    | .text => t.kind ≠ .var ∧ t.isPunctuation side.mark = false ∧ t.isPunctuation "[" = false := by
  cases hkind : t.kind with
  | punctuation =>
    simp only [role, hkind]
    by_cases hmark : t.value = side.mark
    · simp [hmark, isPunctuation, is, hkind]
    · by_cases hopen : t.value = "["
      · rw [if_neg hmark, if_pos hopen]
        simp [hopen, isPunctuation, is, hkind]
      · by_cases hclose : t.value = "]" ∧ (side = .host ∨ nested = true)
        · rw [if_neg hmark, if_neg hopen, if_pos hclose]
          exact ⟨by simp [hclose.1, isPunctuation, is, hkind], hclose.2⟩
        · rw [if_neg hmark, if_neg hopen, if_neg hclose]
          simp [hkind, hmark, hopen, isPunctuation, is]
  | var => simp [role, hkind]
  | number => cases side <;> simp [role, hkind, isPunctuation, is]
  | text => simp [role, hkind, isPunctuation, is]
  | quotedString => simp [role, hkind, isPunctuation, is]
  | eof => simp [role, hkind, isPunctuation, is]

section

variable {side : Side} {nested : Bool} {t : Token}

theorem isPunctuation_of_delimiter (h : t.role side nested = .delimiter) :
    t.isPunctuation side.mark = true := by
  simpa [h] using t.role_spec side nested

theorem isPunctuation_of_opening (h : t.role side nested = .opening) :
    t.isPunctuation "[" = true := by
  simpa [h] using t.role_spec side nested

theorem isPunctuation_of_closing (h : t.role side nested = .closing) :
    t.isPunctuation "]" = true ∧ (side = .host ∨ nested = true) := by
  simpa [h] using t.role_spec side nested

theorem kind_of_labels (h : t.role side nested = .labels) : t.kind = .number ∧ side = .host := by
  simpa [h] using t.role_spec side nested

theorem kind_of_var (h : t.role side nested = .var) : t.kind = .var := by
  simpa [h] using t.role_spec side nested

theorem kind_ne_var_of_text (h : t.role side nested = .text) : t.kind ≠ .var := by
  have hspec := t.role_spec side nested
  rw [h] at hspec
  exact hspec.1

theorem role_of_closing (h : t.isPunctuation "]" = true) : t.role side true = .closing := by
  simp only [Token.isPunctuation, Token.is, Bool.and_eq_true, Option.all_some, decide_eq_true_eq] at h
  obtain ⟨hkind, hvalue⟩ := h
  cases side <;> simp [Token.role, hkind, hvalue, Side.mark]

end

/-- A token stands for a parameter. -/
inductive Token.StandsFor : Token → Param → Prop
  | number {t : Token} {p : Param} (kind : t.kind = .number) (value : t.number? = some p) :
    StandsFor t p
  | quoted {t : Token} (kind : t.kind = .quotedString) : StandsFor t (.str t.value)
  | text {t : Token} (kind : t.kind = .text) : StandsFor t (.str t.value)

theorem Token.StandsFor.kind_ne_punctuation {t : Token} {p : Param} (h : t.StandsFor p) :
    t.kind ≠ .punctuation := by
  cases h with
  | number kind => simp [kind]
  | quoted kind => simp [kind]
  | text kind => simp [kind]

/-! ## Lists in parentheses -/

/-- Items between commas, at least one, and the parenthesis that closes them. -/
inductive Listed {γ : Type} (Item : γ → List Token → Prop) : List γ → List Token → Prop
  | last {x : γ} {item : List Token} {mark : Token} (spelled : Item x item)
    (closing : mark.isPunctuation ")" = true) : Listed Item [x] (item ++ [mark])
  | more {x : γ} {xs : List γ} {item rest : List Token} {mark : Token} (spelled : Item x item)
    (comma : mark.isPunctuation "," = true) (others : Listed Item xs rest) :
    Listed Item (x :: xs) (item ++ mark :: rest)

def SpellsParam (p : Param) (tokens : List Token) : Prop := ∃ t : Token, tokens = [t] ∧ t.StandsFor p

/-- The parameters of a rule, behind the opening parenthesis. -/
inductive SpellsParams : List Param → List Token → Prop
  | none {mark : Token} (closing : mark.isPunctuation ")" = true) : SpellsParams [] [mark]
  | some {params : List Param} {tokens : List Token} (listed : Listed SpellsParam params tokens) :
    SpellsParams params tokens

/-- What follows the name of a rule: nothing, or parameters in parentheses. -/
inductive SpellsParams? : Option (List Param) → List Token → Prop
  | none : SpellsParams? none []
  | some {mark : Token} {params : List Param} {tokens : List Token}
    (opening : mark.isPunctuation "(" = true) (spelled : SpellsParams params tokens) :
    SpellsParams? (some params) (mark :: tokens)

inductive SpellsCall : RuleCall → List Token → Prop
  | named {t : Token} {params? : Option (List Param)} {tokens : List Token} (name : t.kind = .text)
    (spelled : SpellsParams? params? tokens) : SpellsCall ⟨t.value, params?⟩ (t :: tokens)

/-! ## Rows of parts -/

/-- The labels that a text names, with delimiters for the periods between them. -/
inductive Labels : List (Part Slot) → List Char → Prop
  | last {label : List Char} (plain : '.' ∉ label) : Labels [.text (String.ofList label)] label
  | more {label rest : List Char} {parts : List (Part Slot)} (plain : '.' ∉ label)
    (others : Labels parts rest) :
    Labels (.text (String.ofList label) :: .delimiter :: parts) (label ++ '.' :: rest)

/-- The labels of a text are its pieces between periods. -/
theorem labels_iff {parts : List (Part Slot)} {value : String} :
    Labels parts value.toList ↔ parts = Builder.labelParts value := by
  have hlabels : ∀ {cs : List Char} {parts : List (Part Slot)}, Labels parts cs → parts
      = ((splitAt '.' cs).map fun label => Part.text (String.ofList label)).intersperse .delimiter := by
    intro cs parts h
    induction h with
    | last plain =>
      rw [splitAt_of_not_mem plain]
      rfl
    | @more label rest parts plain others ih =>
      rw [splitAt_append_cons, splitAt_of_not_mem plain, ih]
      cases hrest : splitAt '.' rest with
      | nil => exact absurd hrest (splitAt_ne_nil '.' rest)
      | cons piece pieces => rfl
  have hexists : ∀ cs : List Char, ∃ parts, Labels parts cs := by
    intro cs
    induction cs with
    | nil => exact ⟨_, .last List.not_mem_nil⟩
    | cons c cs ih =>
      obtain ⟨parts, hparts⟩ := ih
      by_cases hc : c = '.'
      · subst hc
        exact ⟨_, .more List.not_mem_nil hparts⟩
      · cases hparts with
        | last plain => exact ⟨_, .last (List.not_mem_cons_of_ne_of_not_mem (Ne.symm hc) plain)⟩
        | more plain others =>
          exact ⟨_, .more (List.not_mem_cons_of_ne_of_not_mem (Ne.symm hc) plain) others⟩
  constructor
  · exact hlabels
  · intro h
    obtain ⟨parts', hparts'⟩ := hexists value.toList
    rw [h, Builder.labelParts, ← hlabels hparts']
    exact hparts'

/-- The last label of a number is a text. -/
theorem Labels.getLast? {parts : List (Part Slot)} {cs : List Char} (h : Labels parts cs) :
    ∃ s, parts.getLast? = some (.text s) := by
  induction h with
  | last plain => exact ⟨_, rfl⟩
  | @more label rest parts plain others ih =>
    obtain ⟨s, hs⟩ := ih
    refine ⟨s, ?_⟩
    rw [List.getLast?_cons, List.getLast?_cons, hs]
    rfl

/-- The tokens of a row. `nested` tells whether the row is an optional part, and `behindVar` whether
the part before the tokens is a variable. -/
inductive SpellsRow : Side → (nested behindVar : Bool) → List (Part Slot) → List Token → Prop
  | nil {side : Side} {nested behindVar : Bool} : SpellsRow side nested behindVar [] []
  | delimiter {side : Side} {nested behindVar : Bool} {t : Token} {parts : List (Part Slot)}
    {tokens : List Token} (role : t.role side nested = .delimiter)
    (rest : SpellsRow side nested false parts tokens) :
    SpellsRow side nested behindVar (.delimiter :: parts) (t :: tokens)
  | text {side : Side} {nested behindVar : Bool} {t : Token} {parts : List (Part Slot)}
    {tokens : List Token} (role : t.role side nested = .text)
    (rest : SpellsRow side nested false parts tokens) :
    SpellsRow side nested behindVar (.text t.value :: parts) (t :: tokens)
  | labels {side : Side} {nested behindVar : Bool} {t : Token} {named parts : List (Part Slot)}
    {tokens : List Token} (role : t.role side nested = .labels) (labels : Labels named t.value.toList)
    (rest : SpellsRow side nested false parts tokens) :
    SpellsRow side nested behindVar (named ++ parts) (t :: tokens)
  /-- A parenthesis right behind a variable would begin its rules. -/
  | var {side : Side} {nested : Bool} {t : Token} {parts : List (Part Slot)} {tokens : List Token}
    (role : t.role side nested = .var) (bare : tokens.head?.any (·.isPunctuation "(") = false)
    (rest : SpellsRow side nested true parts tokens) :
    SpellsRow side nested false (.var ⟨t.value, []⟩ :: parts) (t :: tokens)
  | ruled {side : Side} {nested : Bool} {t mark : Token} {rules : List RuleCall}
    {parts : List (Part Slot)} {listed tokens : List Token} (role : t.role side nested = .var)
    (opening : mark.isPunctuation "(" = true) (spelled : Listed SpellsCall rules listed)
    (rest : SpellsRow side nested true parts tokens) :
    SpellsRow side nested false (.var ⟨t.value, rules⟩ :: parts) (t :: mark :: (listed ++ tokens))
  /-- An optional part of a path starts with a slash. -/
  | optionalPath {nested behindVar : Bool} {t slash mark : Token} {inner parts : List (Part Slot)}
    {read tokens : List Token} (role : t.role .path nested = .opening)
    (start : slash.isPunctuation "/" = true) (spelled : SpellsRow .path true false inner read)
    (closing : mark.isPunctuation "]" = true) (rest : SpellsRow .path nested false parts tokens) :
    SpellsRow .path nested behindVar (.optional (.delimiter :: inner) :: parts)
      (t :: slash :: (read ++ mark :: tokens))
  /-- An optional part of a host ends with a period. -/
  | optionalHost {nested behindVar : Bool} {t mark : Token} {inner parts : List (Part Slot)}
    {read tokens : List Token} (role : t.role .host nested = .opening)
    (spelled : SpellsRow .host true false inner read) (stop : inner.getLast?.any Part.isDelimiter = true)
    (closing : mark.isPunctuation "]" = true) (rest : SpellsRow .host nested false parts tokens) :
    SpellsRow .host nested behindVar (.optional inner :: parts) (t :: (read ++ mark :: tokens))

theorem spellsRow_nil {side : Side} {nested behindVar : Bool} {parts : List (Part Slot)} :
    SpellsRow side nested behindVar parts [] ↔ parts = [] := by
  constructor
  · intro h
    cases h
    rfl
  · intro h
    rw [h]
    exact .nil

/-- Behind the name of a variable come its rules, if it has some, and the rest of the row. -/
def SpellsSlot (side : Side) (nested : Bool) (name : String) (parts : List (Part Slot))
    (tokens : List Token) : Prop :=
  (tokens.head?.any (·.isPunctuation "(") = false ∧
      ∃ more, parts = .var ⟨name, []⟩ :: more ∧ SpellsRow side nested true more tokens) ∨
    ∃ mark rules listed rest more, tokens = mark :: (listed ++ rest) ∧ mark.isPunctuation "(" = true ∧
      Listed SpellsCall rules listed ∧ parts = .var ⟨name, rules⟩ :: more ∧
      SpellsRow side nested true more rest

/-- Behind an opening bracket come an optional part, its end and the rest of the row. -/
def SpellsOptional (nested : Bool) (parts : List (Part Slot)) (tokens : List Token) : Side → Prop
  | .host => ∃ inner read mark rest more, tokens = read ++ mark :: rest ∧
      SpellsRow .host true false inner read ∧ inner.getLast?.any Part.isDelimiter = true ∧
      mark.isPunctuation "]" = true ∧ parts = .optional inner :: more ∧
      SpellsRow .host nested false more rest
  | .path => ∃ slash inner read mark rest more, tokens = slash :: (read ++ mark :: rest) ∧
      slash.isPunctuation "/" = true ∧ SpellsRow .path true false inner read ∧
      mark.isPunctuation "]" = true ∧ parts = .optional (.delimiter :: inner) :: more ∧
      SpellsRow .path nested false more rest

/-- What the first token of a row is decides how the row goes on. -/
theorem spellsRow_cons {side : Side} {nested behindVar : Bool} {t : Token} {parts : List (Part Slot)}
    {tokens : List Token} :
    SpellsRow side nested behindVar parts (t :: tokens) ↔
      match t.role side nested with
      | .delimiter => ∃ more, parts = .delimiter :: more ∧ SpellsRow side nested false more tokens
      | .text => ∃ more, parts = .text t.value :: more ∧ SpellsRow side nested false more tokens
      | .labels => ∃ more, parts = Builder.labelParts t.value ++ more ∧
          SpellsRow side nested false more tokens
      | .var => behindVar = false ∧ SpellsSlot side nested t.value parts tokens
      | .opening => SpellsOptional nested parts tokens side
      | .closing => False := by
  constructor
  · intro h
    cases h with
    | delimiter role rest =>
      rw [role]
      exact ⟨_, rfl, rest⟩
    | text role rest =>
      rw [role]
      exact ⟨_, rfl, rest⟩
    | labels role labels rest =>
      rw [role]
      exact ⟨_, by rw [labels_iff.mp labels], rest⟩
    | var role bare rest =>
      rw [role]
      exact ⟨rfl, Or.inl ⟨bare, _, rfl, rest⟩⟩
    | ruled role opening spelled rest =>
      rw [role]
      exact ⟨rfl, Or.inr ⟨_, _, _, _, _, rfl, opening, spelled, rfl, rest⟩⟩
    | optionalPath role start spelled closing rest =>
      rw [role]
      exact ⟨_, _, _, _, _, _, rfl, start, spelled, closing, rfl, rest⟩
    | optionalHost role spelled stop closing rest =>
      rw [role]
      exact ⟨_, _, _, _, _, rfl, spelled, stop, closing, rfl, rest⟩
  · intro h
    cases role : t.role side nested with
    | delimiter =>
      rw [role] at h
      obtain ⟨more, rfl, rest⟩ := h
      exact .delimiter role rest
    | text =>
      rw [role] at h
      obtain ⟨more, rfl, rest⟩ := h
      exact .text role rest
    | labels =>
      rw [role] at h
      obtain ⟨more, rfl, rest⟩ := h
      exact .labels role (labels_iff.mpr rfl) rest
    | var =>
      rw [role] at h
      obtain ⟨rfl, ⟨bare, more, rfl, rest⟩ |
        ⟨mark, rules, listed, rest, more, rfl, opening, spelled, rfl, hrest⟩⟩ := h
      · exact .var role bare rest
      · exact .ruled role opening spelled hrest
    | opening =>
      rw [role] at h
      cases side with
      | host =>
        obtain ⟨inner, read, mark, rest, more, rfl, spelled, stop, closing, rfl, hrest⟩ := h
        exact .optionalHost role spelled stop closing hrest
      | path =>
        obtain ⟨slash, inner, read, mark, rest, more, rfl, start, spelled, closing, rfl, hrest⟩ := h
        exact .optionalPath role start spelled closing hrest
    | closing =>
      rw [role] at h
      exact h.elim

/-- Tokens that are a host or path. -/
def WellFormed (side : Side) (tokens : List Token) : Prop :=
  ∃ parts, SpellsRow side false false parts tokens

/-! ## Templates -/

/-- Tokens are cut before their first slash. -/
structure CutAtSlash (tokens front back : List Token) : Prop where
  joined : tokens = front ++ back
  front : ∀ t ∈ front, t.isPunctuation "/" = false
  back : back.head?.all (·.isPunctuation "/") = true

/-- The tokens before the first slash are the host when one of them is more than a bracket. -/
inductive Template.SpelledBy : Template → List Token → Prop
  | path {tokens front back : List Token} {path : List (Part Slot)}
    (cut : CutAtSlash tokens front back) (brackets : ∀ t ∈ front, t.isBracket = true)
    (spelled : SpellsRow .path false false path tokens) : SpelledBy ⟨none, path⟩ tokens
  | host {tokens front back : List Token} {host path : List (Part Slot)}
    (cut : CutAtSlash tokens front back) (more : ∃ t ∈ front, t.isBracket = false)
    (spelledHost : SpellsRow .host false false host front)
    (spelledPath : SpellsRow .path false false path back) : SpelledBy ⟨some host, path⟩ tokens

/-! ## Reading back -/

/-- What is read back from a template. -/
inductive Symbol
  | mark (value : String)
  | text (value : String)
  | var (name : String)
  | param (value : Param)

/-- Items between commas and the parenthesis that closes them. -/
def Symbol.listed : List (List Symbol) → List Symbol
  | [] => [.mark ")"]
  | [item] => item ++ [.mark ")"]
  | item :: items => item ++ .mark "," :: listed items

def RuleCall.symbols (call : RuleCall) : List Symbol :=
  .text call.rule :: match call.params? with
    | none => []
    | some params => .mark "(" :: Symbol.listed (params.map fun p => [.param p])

def Slot.symbols (slot : Slot) : List Symbol :=
  .var slot.name :: match slot.rules with
    | [] => []
    | rules => .mark "(" :: Symbol.listed (rules.map RuleCall.symbols)

namespace Part

mutual

def symbolsOfPart (side : Side) : Part Slot → List Symbol
  | .delimiter => [.mark side.mark]
  | .text s => [.text s]
  | .var slot => slot.symbols
  | .optional inner => .mark "[" :: (symbols side inner ++ [.mark "]"])

def symbols (side : Side) : List (Part Slot) → List Symbol
  | [] => []
  | p :: rest => symbolsOfPart side p ++ symbols side rest

end

theorem symbols_append (side : Side) (front back : List (Part Slot)) :
    symbols side (front ++ back) = symbols side front ++ symbols side back := by
  induction front with
  | nil => rfl
  | cons p front ih => rw [List.cons_append, symbols, symbols, ih, List.append_assoc]

end Part

def Template.symbols (t : Template) : List Symbol :=
  (t.host?.elim [] (Part.symbols .host)) ++ Part.symbols .path t.path

/-- A token as it is read back. A text stands for any token but a variable, since marks, numbers and
strings that have no meaning where they stand are texts there. -/
inductive Token.ReadsAs : Token → List Symbol → Prop
  | mark {t : Token} {value : String} (mark : t.isPunctuation value = true) : ReadsAs t [.mark value]
  | text {t : Token} (kind : t.kind ≠ .var) : ReadsAs t [.text t.value]
  | var {t : Token} (kind : t.kind = .var) : ReadsAs t [.var t.value]
  | labels {t : Token} {named : List (Part Slot)} (kind : t.kind = .number)
    (labels : Labels named t.value.toList) : ReadsAs t (Part.symbols .host named)
  | param {t : Token} {p : Param} (stands : t.StandsFor p) : ReadsAs t [.param p]

/-- Symbols give tokens back one by one and in order. -/
inductive ReadsBack : List Token → List Symbol → Prop
  | nil : ReadsBack [] []
  | cons {t : Token} {tokens : List Token} {here later : List Symbol} (head : t.ReadsAs here)
    (tail : ReadsBack tokens later) : ReadsBack (t :: tokens) (here ++ later)

theorem ReadsBack.append {tokens tokens' : List Token} {symbols symbols' : List Symbol}
    (h : ReadsBack tokens symbols) (h' : ReadsBack tokens' symbols') :
    ReadsBack (tokens ++ tokens') (symbols ++ symbols') := by
  induction h with
  | nil => exact h'
  | cons head tail ih =>
    rw [List.cons_append, List.append_assoc]
    exact .cons head ih

theorem ReadsBack.mark {tokens : List Token} {symbols : List Symbol} (h : ReadsBack tokens symbols)
    {t : Token} {value : String} (ht : t.isPunctuation value = true) :
    ReadsBack (t :: tokens) (.mark value :: symbols) := .cons (.mark ht) h

theorem ReadsBack.var {tokens : List Token} {symbols : List Symbol} (h : ReadsBack tokens symbols)
    {t : Token} (ht : t.kind = .var) : ReadsBack (t :: tokens) (.var t.value :: symbols) :=
  .cons (.var ht) h

theorem Listed.readsBack {γ : Type} {Item : γ → List Token → Prop} {symbols : γ → List Symbol}
    (hitem : ∀ x item, Item x item → ReadsBack item (symbols x)) {xs : List γ} {tokens : List Token}
    (h : Listed Item xs tokens) : ReadsBack tokens (Symbol.listed (xs.map symbols)) := by
  induction h with
  | last spelled closing => exact (hitem _ _ spelled).append (ReadsBack.nil.mark closing)
  | @more x xs item rest mark spelled comma others ih =>
    obtain ⟨y, ys, rfl⟩ : ∃ y ys, xs = y :: ys := by cases others <;> exact ⟨_, _, rfl⟩
    exact (hitem _ _ spelled).append (ih.mark comma)

theorem SpellsParam.readsBack {p : Param} {item : List Token} (h : SpellsParam p item) :
    ReadsBack item [.param p] := by
  obtain ⟨t, rfl, ht⟩ := h
  exact .cons (.param ht) .nil

theorem SpellsCall.readsBack {call : RuleCall} {item : List Token} (h : SpellsCall call item) :
    ReadsBack item call.symbols := by
  cases h with
  | @named t params? tokens name spelled =>
    have hkind : t.kind ≠ .var := by simp [name]
    refine .cons (.text hkind) ?_
    cases spelled with
    | none => exact .nil
    | some opening spelled =>
      refine ReadsBack.mark ?_ opening
      cases spelled with
      | none closing => exact ReadsBack.nil.mark closing
      | some listed => exact listed.readsBack fun p item (h : SpellsParam p item) => h.readsBack

/-- A row gives its tokens back. -/
theorem SpellsRow.readsBack {side : Side} {nested behindVar : Bool} {parts : List (Part Slot)}
    {tokens : List Token} (h : SpellsRow side nested behindVar parts tokens) :
    ReadsBack tokens (Part.symbols side parts) := by
  induction h with
  | nil => exact .nil
  | delimiter role rest ih => exact ih.mark (isPunctuation_of_delimiter role)
  | text role rest ih => exact .cons (.text (kind_ne_var_of_text role)) ih
  | @labels side nested behindVar t named parts tokens role labels rest ih =>
    obtain ⟨hkind, rfl⟩ := kind_of_labels role
    rw [Part.symbols_append]
    exact .cons (.labels hkind labels) ih
  | var role bare rest ih => exact ih.var (kind_of_var role)
  | @ruled side nested t mark rules parts listed tokens role opening spelled rest ih =>
    have hrules : (⟨t.value, rules⟩ : Slot).symbols
        = .var t.value :: .mark "(" :: Symbol.listed (rules.map RuleCall.symbols) := by
      cases spelled <;> rfl
    rw [Part.symbols, Part.symbolsOfPart, hrules]
    have hlisted := spelled.readsBack fun call item (h : SpellsCall call item) => h.readsBack
    exact ((hlisted.append ih).mark opening).var (kind_of_var role)
  | optionalPath role start spelled closing rest ihinner ih =>
    have hinner := (ihinner.append (ih.mark closing)).mark start
    rw [Part.symbols, Part.symbolsOfPart, Part.symbols, Part.symbolsOfPart]
    simpa only [List.cons_append, List.append_assoc, List.nil_append, Side.mark] using
      hinner.mark (isPunctuation_of_opening role)
  | optionalHost role spelled stop closing rest ihinner ih =>
    have hinner := ihinner.append (ih.mark closing)
    rw [Part.symbols, Part.symbolsOfPart]
    simpa only [List.cons_append, List.append_assoc, List.nil_append] using
      hinner.mark (isPunctuation_of_opening role)

end UriRouting

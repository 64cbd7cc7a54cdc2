import UriRouting.Proofs.Template.Grammar
/-!
The reader of tokens accepts its grammar.

`Builder.Completes` says in terms of the grammar which tokens bring a builder to its end, and what it has
read then. One token more or less does not change it: `Builder.completes_cons`. So the tokens that an
empty builder accepts are the well-formed ones.
-/

namespace UriRouting

open Text

/-! ## Beginnings -/

/-- Tokens begin with something, and how they go on depends on what it is. -/
def Begins {γ : Type} (P K : γ → List Token → Prop) (tokens : List Token) : Prop :=
  ∃ x read rest, tokens = read ++ rest ∧ P x read ∧ K x rest

/-- Behind an item, a list goes on or is closed. -/
def Behind {γ : Type} (Item : γ → List Token → Prop) (K : List γ → List Token → Prop)
    (tokens : List Token) : Prop :=
  ∃ mark rest, tokens = mark :: rest ∧
    (mark.isPunctuation ")" = true ∧ K [] rest ∨
      mark.isPunctuation "," = true ∧ Begins (Listed Item) K rest)

section

variable {γ δ : Type} {P K : γ → List Token → Prop} {t : Token} {tokens : List Token}

theorem exists_first {Q : Token → List Token → Prop} :
    (∃ first more, t :: tokens = first :: more ∧ Q first more) ↔ Q t tokens := by
  constructor
  · intro h
    obtain ⟨first, more, heq, h⟩ := h
    obtain ⟨rfl, rfl⟩ := List.cons.inj heq
    exact h
  · intro h
    exact ⟨t, tokens, rfl, h⟩

theorem begins_nil : Begins P K [] ↔ ∃ x, P x [] ∧ K x [] := by
  constructor
  · intro h
    obtain ⟨x, read, rest, heq, hread, hrest⟩ := h
    obtain ⟨rfl, rfl⟩ := List.append_eq_nil_iff.mp heq.symm
    exact ⟨x, hread, hrest⟩
  · intro h
    obtain ⟨x, hread, hrest⟩ := h
    exact ⟨x, [], [], rfl, hread, hrest⟩

theorem begins_cons :
    Begins P K (t :: tokens) ↔ (∃ x, P x [] ∧ K x (t :: tokens)) ∨
      Begins (fun x read => P x (t :: read)) K tokens := by
  constructor
  · intro h
    obtain ⟨x, read, rest, heq, hread, hrest⟩ := h
    cases read with
    | nil =>
      rw [List.nil_append] at heq
      exact Or.inl ⟨x, hread, heq ▸ hrest⟩
    | cons t' read =>
      obtain ⟨rfl, htokens⟩ := List.cons.inj heq
      exact Or.inr ⟨x, read, rest, htokens, hread, hrest⟩
  · intro h
    rcases h with ⟨x, hread, hrest⟩ | ⟨x, read, rest, heq, hread, hrest⟩
    · exact ⟨x, [], t :: tokens, rfl, hread, hrest⟩
    · exact ⟨x, t :: read, rest, by rw [heq, List.cons_append], hread, hrest⟩

/-- What begins with one thing that is made of another begins with the other. -/
theorem begins_map {Q : δ → List Token → Prop} {f : δ → γ}
    (h : ∀ x read, P x read ↔ ∃ y, x = f y ∧ Q y read) :
    Begins P K tokens ↔ Begins Q (fun y => K (f y)) tokens := by
  constructor
  · intro hbegins
    obtain ⟨x, read, rest, heq, hread, hrest⟩ := hbegins
    obtain ⟨y, rfl, hy⟩ := (h x read).mp hread
    exact ⟨y, read, rest, heq, hy, hrest⟩
  · intro hbegins
    obtain ⟨y, read, rest, heq, hread, hrest⟩ := hbegins
    exact ⟨f y, read, rest, heq, (h (f y) read).mpr ⟨y, rfl, hread⟩, hrest⟩

theorem begins_listed {Item : γ → List Token → Prop} {K : List γ → List Token → Prop} :
    Begins (Listed Item) K tokens ↔ Begins Item (fun x => Behind Item fun xs => K (x :: xs)) tokens := by
  constructor
  · intro h
    obtain ⟨xs, read, rest, rfl, hread, hrest⟩ := h
    cases hread with
    | last spelled closing =>
      refine ⟨_, _, _, ?_, spelled, _, rest, rfl, Or.inl ⟨closing, hrest⟩⟩
      rw [List.append_assoc, List.singleton_append]
    | @more x xs item others mark spelled comma listed =>
      refine ⟨x, item, mark :: (others ++ rest), ?_, spelled, mark, others ++ rest, rfl,
        Or.inr ⟨comma, xs, others, rest, rfl, listed, hrest⟩⟩
      rw [List.append_assoc, List.cons_append]
  · intro h
    obtain ⟨x, item, _, rfl, spelled, mark, rest, rfl, hmark⟩ := h
    rcases hmark with ⟨closing, hrest⟩ | ⟨comma, xs, others, rest, rfl, listed, hrest⟩
    · refine ⟨[x], item ++ [mark], rest, ?_, .last spelled closing, hrest⟩
      rw [List.append_assoc, List.singleton_append]
    · refine ⟨x :: xs, item ++ mark :: others, rest, ?_, .more spelled comma listed, hrest⟩
      rw [List.append_assoc, List.cons_append]

theorem behind_nil {Item : γ → List Token → Prop} {K : List γ → List Token → Prop} :
    ¬ Behind Item K [] := by
  intro h
  obtain ⟨mark, rest, heq, -⟩ := h
  cases heq

theorem behind_cons {Item : γ → List Token → Prop} {K : List γ → List Token → Prop} :
    Behind Item K (t :: tokens) ↔ t.isPunctuation ")" = true ∧ K [] tokens ∨
      t.isPunctuation "," = true ∧ Begins (Listed Item) K tokens := exists_first

end

/-! ## Rules -/

section

variable {t : Token} {tokens : List Token}

theorem begins_param_nil {K : Param → List Token → Prop} : ¬ Begins SpellsParam K [] := by
  rw [begins_nil]
  intro h
  obtain ⟨p, ⟨t, heq, -⟩, -⟩ := h
  cases heq

theorem begins_param_cons {K : Param → List Token → Prop} :
    Begins SpellsParam K (t :: tokens) ↔ ∃ p, t.StandsFor p ∧ K p tokens := by
  constructor
  · intro h
    obtain ⟨p, _, rest, heq, ⟨t', rfl, stands⟩, hrest⟩ := h
    obtain ⟨rfl, rfl⟩ := List.cons.inj heq
    exact ⟨p, stands, hrest⟩
  · intro h
    obtain ⟨p, stands, hrest⟩ := h
    exact ⟨p, [t], tokens, rfl, ⟨t, rfl, stands⟩, hrest⟩

theorem begins_params {K : List Param → List Token → Prop} :
    Begins SpellsParams K tokens ↔
      (∃ mark rest, tokens = mark :: rest ∧ mark.isPunctuation ")" = true ∧ K [] rest) ∨
        Begins (Listed SpellsParam) K tokens := by
  constructor
  · intro h
    obtain ⟨params, read, rest, rfl, hread, hrest⟩ := h
    cases hread with
    | none closing => exact Or.inl ⟨_, rest, rfl, closing, hrest⟩
    | some listed => exact Or.inr ⟨params, read, rest, rfl, listed, hrest⟩
  · intro h
    rcases h with ⟨mark, rest, rfl, closing, hrest⟩ | ⟨params, read, rest, rfl, listed, hrest⟩
    · exact ⟨[], [mark], rest, rfl, .none closing, hrest⟩
    · exact ⟨params, read, rest, rfl, .some listed, hrest⟩

theorem begins_params? {K : Option (List Param) → List Token → Prop} :
    Begins SpellsParams? K tokens ↔ K none tokens ∨
      ∃ mark rest, tokens = mark :: rest ∧ mark.isPunctuation "(" = true ∧
        Begins SpellsParams (fun params => K (some params)) rest := by
  constructor
  · intro h
    obtain ⟨params?, read, rest, rfl, hread, hrest⟩ := h
    cases hread with
    | none => exact Or.inl hrest
    | @some mark params read opening spelled =>
      exact Or.inr ⟨mark, read ++ rest, rfl, opening, params, read, rest, rfl, spelled, hrest⟩
  · intro h
    rcases h with hrest | ⟨mark, _, rfl, opening, params, read, rest, rfl, spelled, hrest⟩
    · exact ⟨none, [], tokens, rfl, .none, hrest⟩
    · exact ⟨some params, mark :: read, rest, rfl, .some opening spelled, hrest⟩

theorem begins_call_nil {K : RuleCall → List Token → Prop} : ¬ Begins SpellsCall K [] := by
  rw [begins_nil]
  intro h
  obtain ⟨call, hcall, -⟩ := h
  cases hcall

theorem begins_call_cons {K : RuleCall → List Token → Prop} :
    Begins SpellsCall K (t :: tokens) ↔ t.kind = .text ∧
      Begins SpellsParams? (fun params? => K ⟨t.value, params?⟩) tokens := by
  constructor
  · intro h
    obtain ⟨call, _, rest, heq, hread, hrest⟩ := h
    cases hread with
    | @named t' params? read name spelled =>
      obtain ⟨rfl, rfl⟩ := List.cons.inj heq
      exact ⟨name, params?, read, rest, rfl, spelled, hrest⟩
  · intro h
    obtain ⟨name, params?, read, rest, rfl, spelled, hrest⟩ := h
    exact ⟨⟨t.value, params?⟩, t :: read, rest, rfl, .named name spelled, hrest⟩

end

/-! ## Open rows -/

namespace Builder

/-- How tokens go on behind a complete row: they end, or they close the row and go on with those around
it, until a whole has been read. -/
def Ends (side : Side) (whole : List (Part Slot)) :
    List (List (Part Slot)) → List (Part Slot) → List Token → Prop
  | [], parts, tokens => tokens = [] ∧ parts = whole
  | row :: outer, parts, tokens => ∃ mark rest, tokens = mark :: rest ∧ mark.isPunctuation "]" = true ∧
      (side = .host → parts.getLast?.any Part.isDelimiter = true) ∧
      Begins (SpellsRow side (!outer.isEmpty) false)
        (fun more => Ends side whole outer (row.reverse ++ .optional parts :: more)) rest

/-- How tokens go on in open rows, which are given newest part first. -/
def GoesOn (side : Side) (whole row : List (Part Slot)) (outer : List (List (Part Slot)))
    (tokens : List Token) : Prop :=
  Begins (SpellsRow side (!outer.isEmpty) (row.head?.any Part.isVar))
    (fun parts => Ends side whole outer (row.reverse ++ parts)) tokens

section

variable {side : Side} {whole row : List (Part Slot)} {outer : List (List (Part Slot))} {t : Token}
  {tokens : List Token}

theorem Ends.role {parts : List (Part Slot)} (h : Ends side whole outer parts (t :: tokens)) :
    t.role side (!outer.isEmpty) = .closing := by
  cases outer with
  | nil => cases h.1
  | cons row outer =>
    obtain ⟨mark, rest, heq, closing, -⟩ := h
    obtain ⟨rfl, -⟩ := List.cons.inj heq
    exact role_of_closing closing

theorem Ends.bare {parts : List (Part Slot)} (h : Ends side whole outer parts tokens) :
    tokens.head?.any (·.isPunctuation "(") = false := by
  cases tokens with
  | nil => rfl
  | cons t tokens =>
    rw [List.head?_cons, Option.any_some,
      isPunctuation_eq (isPunctuation_of_closing h.role).1]
    rfl

theorem goesOn_nil : GoesOn side whole row outer [] ↔ outer = [] ∧ row.reverse = whole := by
  rw [GoesOn, begins_nil]
  constructor
  · intro h
    obtain ⟨parts, hparts, hends⟩ := h
    rw [spellsRow_nil.mp hparts, List.append_nil] at hends
    cases outer with
    | nil => exact ⟨rfl, hends.2⟩
    | cons row outer =>
      obtain ⟨mark, rest, heq, -⟩ := hends
      cases heq
  · intro h
    obtain ⟨rfl, rfl⟩ := h
    exact ⟨[], .nil, rfl, List.append_nil _⟩

theorem goesOn_push (p : Part Slot) :
    GoesOn side whole (p :: row) outer tokens ↔ Begins (SpellsRow side (!outer.isEmpty) p.isVar)
      (fun more => Ends side whole outer (row.reverse ++ p :: more)) tokens := by
  simp only [GoesOn, List.head?_cons, Option.any_some, List.reverse_cons, List.append_assoc,
    List.singleton_append]

/-- A token that closes nothing belongs to the innermost row. -/
theorem goesOn_cons (hrole : t.role side (!outer.isEmpty) ≠ .closing) :
    GoesOn side whole row outer (t :: tokens) ↔
      Begins (fun parts read => SpellsRow side (!outer.isEmpty) (row.head?.any Part.isVar) parts
        (t :: read)) (fun parts => Ends side whole outer (row.reverse ++ parts)) tokens := by
  rw [GoesOn, begins_cons]
  refine or_iff_right fun h => ?_
  obtain ⟨parts, -, hends⟩ := h
  exact hrole hends.role

theorem goesOn_delimiter (hrole : t.role side (!outer.isEmpty) = .delimiter) :
    GoesOn side whole row outer (t :: tokens) ↔ GoesOn side whole (.delimiter :: row) outer tokens := by
  rw [goesOn_cons (by rw [hrole]; exact nofun), goesOn_push]
  refine begins_map fun parts read => ?_
  rw [spellsRow_cons, hrole]
  rfl

theorem goesOn_text (hrole : t.role side (!outer.isEmpty) = .text) :
    GoesOn side whole row outer (t :: tokens) ↔
      GoesOn side whole (.text t.value :: row) outer tokens := by
  rw [goesOn_cons (by rw [hrole]; exact nofun), goesOn_push]
  refine begins_map fun parts read => ?_
  rw [spellsRow_cons, hrole]
  rfl

theorem goesOn_labels (hrole : t.role side (!outer.isEmpty) = .labels) :
    GoesOn side whole row outer (t :: tokens) ↔
      GoesOn side whole ((labelParts t.value).reverse ++ row) outer tokens := by
  have hvar : ((labelParts t.value).reverse ++ row).head?.any Part.isVar = false := by
    obtain ⟨s, hs⟩ := (labels_iff.mpr (rfl : labelParts t.value = _)).getLast?
    rw [List.head?_append, List.head?_reverse, hs]
    rfl
  rw [goesOn_cons (by rw [hrole]; exact nofun), GoesOn, hvar, List.reverse_append, List.reverse_reverse]
  simp only [List.append_assoc]
  refine begins_map fun parts read => ?_
  rw [spellsRow_cons, hrole]

theorem goesOn_var (hrole : t.role side (!outer.isEmpty) = .var) :
    GoesOn side whole row outer (t :: tokens) ↔ row.head?.any Part.isVar = false ∧
      (tokens.head?.any (·.isPunctuation "(") = false ∧
          GoesOn side whole (.var ⟨t.value, []⟩ :: row) outer tokens ∨
        ∃ mark rest, tokens = mark :: rest ∧ mark.isPunctuation "(" = true ∧
          Begins (Listed SpellsCall)
            (fun rules => GoesOn side whole (.var ⟨t.value, rules⟩ :: row) outer) rest) := by
  rw [goesOn_cons (by rw [hrole]; exact nofun)]
  constructor
  · intro h
    obtain ⟨parts, read, rest, rfl, hrow, hends⟩ := h
    rw [spellsRow_cons, hrole] at hrow
    obtain ⟨hvar, ⟨bare, more, rfl, hmore⟩ |
      ⟨mark, rules, listed, read, more, rfl, opening, spelled, rfl, hmore⟩⟩ := hrow
    · refine ⟨hvar, Or.inl ⟨?_, (goesOn_push _).mpr ⟨more, read, rest, rfl, hmore, hends⟩⟩⟩
      cases read with
      | nil => exact hends.bare
      | cons t read => exact bare
    · refine ⟨hvar, Or.inr ⟨mark, listed ++ (read ++ rest), ?_, opening, rules, listed, read ++ rest,
        rfl, spelled, (goesOn_push _).mpr ⟨more, read, rest, rfl, hmore, hends⟩⟩⟩
      rw [List.cons_append, List.append_assoc]
  · intro h
    obtain ⟨hvar, ⟨bare, hgoes⟩ | ⟨mark, _, rfl, opening, rules, listed, _, rfl, spelled, hgoes⟩⟩ := h
    · obtain ⟨more, read, rest, rfl, hmore, hends⟩ := (goesOn_push _).mp hgoes
      refine ⟨_, read, rest, rfl, ?_, hends⟩
      refine spellsRow_cons.mpr ?_
      rw [hrole]
      refine ⟨hvar, Or.inl ⟨?_, more, rfl, hmore⟩⟩
      cases read with
      | nil => rfl
      | cons t read => exact bare
    · obtain ⟨more, read, rest, rfl, hmore, hends⟩ := (goesOn_push _).mp hgoes
      refine ⟨_, mark :: (listed ++ read), rest, ?_, ?_, hends⟩
      · rw [List.cons_append, List.append_assoc]
      · refine spellsRow_cons.mpr ?_
        rw [hrole]
        exact ⟨hvar, Or.inr ⟨mark, rules, listed, read, more, rfl, opening, spelled, rfl, hmore⟩⟩

theorem goesOn_openHost (hrole : t.role .host (!outer.isEmpty) = .opening) :
    GoesOn .host whole row outer (t :: tokens) ↔ GoesOn .host whole [] (row :: outer) tokens := by
  rw [goesOn_cons (by rw [hrole]; exact nofun)]
  constructor
  · intro h
    obtain ⟨parts, read, rest, rfl, hrow, hends⟩ := h
    rw [spellsRow_cons, hrole] at hrow
    obtain ⟨inner, read, mark, after, more, rfl, spelled, stop, closing, rfl, hmore⟩ := hrow
    refine ⟨inner, read, mark :: (after ++ rest), ?_, spelled, mark, after ++ rest, rfl, closing,
      fun _ => stop, more, after, rest, rfl, hmore, hends⟩
    rw [List.append_assoc, List.cons_append]
  · intro h
    obtain ⟨inner, read, _, rfl, spelled, mark, _, rfl, closing, stop, more, after, rest, rfl, hmore,
      hends⟩ := h
    refine ⟨.optional inner :: more, read ++ mark :: after, rest, ?_, ?_, hends⟩
    · rw [List.append_assoc, List.cons_append]
    · refine spellsRow_cons.mpr ?_
      rw [hrole]
      exact ⟨inner, read, mark, after, more, rfl, spelled, stop rfl, closing, rfl, hmore⟩

theorem goesOn_openPath (hrole : t.role .path (!outer.isEmpty) = .opening) :
    GoesOn .path whole row outer (t :: tokens) ↔ ∃ slash rest, tokens = slash :: rest ∧
      slash.isPunctuation "/" = true ∧ GoesOn .path whole [.delimiter] (row :: outer) rest := by
  rw [goesOn_cons (by rw [hrole]; exact nofun)]
  constructor
  · intro h
    obtain ⟨parts, read, rest, rfl, hrow, hends⟩ := h
    rw [spellsRow_cons, hrole] at hrow
    obtain ⟨slash, inner, read, mark, after, more, rfl, start, spelled, closing, rfl, hmore⟩ := hrow
    refine ⟨slash, read ++ mark :: (after ++ rest), ?_, start, inner, read, mark :: (after ++ rest), rfl,
      spelled, mark, after ++ rest, rfl, closing, nofun, more, after, rest, rfl, hmore, hends⟩
    rw [List.cons_append, List.append_assoc, List.cons_append]
  · intro h
    obtain ⟨slash, _, rfl, start, inner, read, _, rfl, spelled, mark, _, rfl, closing, -, more, after,
      rest, rfl, hmore, hends⟩ := h
    refine ⟨.optional (.delimiter :: inner) :: more, slash :: (read ++ mark :: after), rest, ?_, ?_,
      hends⟩
    · rw [List.cons_append, List.append_assoc, List.cons_append]
    · refine spellsRow_cons.mpr ?_
      rw [hrole]
      exact ⟨slash, inner, read, mark, after, more, rfl, start, spelled, closing, rfl, hmore⟩

/-- A token that closes a row belongs to none. -/
theorem goesOn_cons_closing (hrole : t.role side (!outer.isEmpty) = .closing) :
    GoesOn side whole row outer (t :: tokens) ↔ Ends side whole outer row.reverse (t :: tokens) := by
  rw [GoesOn, begins_cons]
  constructor
  · intro h
    rcases h with ⟨parts, hparts, hends⟩ | ⟨parts, read, rest, -, hrow, -⟩
    · rw [spellsRow_nil.mp hparts, List.append_nil] at hends
      exact hends
    · rw [spellsRow_cons, hrole] at hrow
      exact hrow.elim
  · intro h
    exact Or.inl ⟨[], .nil, by rw [List.append_nil]; exact h⟩

theorem goesOn_close {around : List (Part Slot)} (hrole : t.role side true = .closing) :
    GoesOn side whole row (around :: outer) (t :: tokens) ↔
      (side = .host → row.head?.any Part.isDelimiter = true) ∧
        GoesOn side whole (.optional row.reverse :: around) outer tokens := by
  rw [goesOn_cons_closing hrole, goesOn_push, Ends, List.getLast?_reverse, exists_first]
  exact and_iff_right (isPunctuation_of_closing hrole).1

theorem not_goesOn_close (hrole : t.role side false = .closing) :
    ¬ GoesOn side whole row [] (t :: tokens) := by
  rw [goesOn_cons_closing hrole]
  intro h
  cases h.1

end

/-! ## Reading tokens -/

/-- How tokens go on behind a variable whose rules have been read, newest first. -/
def GoesOnRuled (side : Side) (whole : List (Part Slot)) (b : Builder) (name : String)
    (rules : List RuleCall) (more : List RuleCall) : List Token → Prop :=
  GoesOn side whole (.var ⟨name, rules.reverse ++ more⟩ :: b.row) b.outer

/-- The tokens that bring a builder to its end, when the whole of what it has read then is given. -/
def Completes (side : Side) (whole : List (Part Slot)) (b : Builder) (tokens : List Token) : Prop :=
  match b.awaiting with
  | .part => GoesOn side whole b.row b.outer tokens
  | .optionalSlash => ∃ slash rest, tokens = slash :: rest ∧ slash.isPunctuation "/" = true ∧
      GoesOn side whole [.delimiter] (b.row :: b.outer) rest
  | .rules name =>
      tokens.head?.any (·.isPunctuation "(") = false ∧
          GoesOn side whole (.var ⟨name, []⟩ :: b.row) b.outer tokens ∨
        ∃ mark rest, tokens = mark :: rest ∧ mark.isPunctuation "(" = true ∧
          Begins (Listed SpellsCall) (b.GoesOnRuled side whole name []) rest
  | .rule name rules => Begins (Listed SpellsCall) (b.GoesOnRuled side whole name rules) tokens
  | .params name rules call => Begins SpellsParams? (fun params? =>
      Behind SpellsCall (b.GoesOnRuled side whole name (⟨call, params?⟩ :: rules))) tokens
  | .firstParam name rules call => Begins SpellsParams (fun params =>
      Behind SpellsCall (b.GoesOnRuled side whole name (⟨call, some params⟩ :: rules))) tokens
  | .nextParam name rules call params => Begins (Listed SpellsParam) (fun more =>
      Behind SpellsCall (b.GoesOnRuled side whole name
        (⟨call, some (params.reverse ++ more)⟩ :: rules))) tokens
  | .afterParam name rules call params => Behind SpellsParam (fun more =>
      Behind SpellsCall (b.GoesOnRuled side whole name
        (⟨call, some (params.reverse ++ more)⟩ :: rules))) tokens
  | .afterRule name rules => Behind SpellsCall (b.GoesOnRuled side whole name rules) tokens

section

variable {side : Side} {whole : List (Part Slot)} {b : Builder} {t : Token} {tokens : List Token}

/-- A token where a part may come does what its role asks. -/
theorem readPart_of_role (side : Side) (b : Builder) (t : Token) :
    match t.role side (!b.outer.isEmpty) with
    | .delimiter => b.readPart side t = .ok (b.push .delimiter)
    | .text => b.readPart side t = .ok (b.push (.text t.value))
    | .labels => b.readPart side t
        = .ok { b with row := (labelParts t.value).reverse ++ b.row, awaiting := .part }
    | .var => b.readPart side t = if b.row.head?.any Part.isVar then
        .error ⟨.delimiterBetweenVariables, t⟩ else .ok { b with awaiting := .rules t.value }
    | .opening => b.readPart side t = match side with
        | .host => .ok b.openOptional
        | .path => .ok { b with awaiting := .optionalSlash }
    | .closing => match b.outer with
        | [] => b.readPart side t = .error ⟨.noStrayHostBracket, t⟩
        | row :: outer => b.readPart side t =
            if side = .path ∨ b.row.head?.any Part.isDelimiter = true then
              .ok ⟨.optional b.row.reverse :: row, outer, .part⟩
            else .error ⟨.optionalHostDelimiter, t⟩ := by
  obtain ⟨row, outer, awaiting⟩ := b
  cases hkind : t.kind with
  | punctuation =>
    cases side with
    | path =>
      by_cases hslash : t.value = "/"
      · simp [Token.role, hkind, readPart, readPathMark, Side.mark, hslash]
      · by_cases hopen : t.value = "["
        · simp [Token.role, hkind, readPart, readPathMark, Side.mark, hopen]
        · by_cases hclose : t.value = "]"
          · cases outer <;> simp [Token.role, hkind, readPart, readPathMark, Side.mark, hclose]
          · simp [Token.role, hkind, readPart, readPathMark, Side.mark, hslash, hopen, hclose]
    | host =>
      by_cases hperiod : t.value = "."
      · simp [Token.role, hkind, readPart, readHostMark, Side.mark, hperiod]
      · by_cases hopen : t.value = "["
        · simp [Token.role, hkind, readPart, readHostMark, Side.mark, hopen]
        · by_cases hclose : t.value = "]"
          · cases outer <;> simp [Token.role, hkind, readPart, readHostMark, Side.mark, hclose]
          · simp [Token.role, hkind, readPart, readHostMark, Side.mark, hperiod, hopen, hclose]
  | var => simp [Token.role, hkind, readPart]
  | number => cases side <;> simp [Token.role, hkind, readPart]
  | text => simp [Token.role, hkind, readPart]
  | quotedString => simp [Token.role, hkind, readPart]
  | eof => simp [Token.role, hkind, readPart]

/-- A reading that is given succeeds with what it gives. -/
theorem exists_ok {ε β : Type} {x : β} {P : β → Prop} :
    (∃ b, (Except.ok x : Except ε β) = .ok b ∧ P b) ↔ P x := by
  simp only [Except.ok.injEq, exists_eq_left']

theorem not_exists_ok {ε β : Type} {e : ε} {P : β → Prop} :
    ¬ ∃ b, (Except.error e : Except ε β) = .ok b ∧ P b := by
  simp only [reduceCtorEq, false_and, exists_false, not_false_iff]

theorem completes_readPart :
    GoesOn side whole b.row b.outer (t :: tokens) ↔
      ∃ b', b.readPart side t = .ok b' ∧ b'.Completes side whole tokens := by
  obtain ⟨row, outer, awaiting⟩ := b
  have hread := readPart_of_role side ⟨row, outer, awaiting⟩ t
  dsimp only at hread ⊢
  cases hrole : t.role side (!outer.isEmpty) with
  | delimiter =>
    rw [hrole] at hread
    rw [hread, exists_ok]
    exact goesOn_delimiter hrole
  | text =>
    rw [hrole] at hread
    rw [hread, exists_ok]
    exact goesOn_text hrole
  | labels =>
    rw [hrole] at hread
    rw [hread, exists_ok]
    exact goesOn_labels hrole
  | var =>
    rw [hrole] at hread
    rw [hread, goesOn_var hrole]
    cases row.head?.any Part.isVar with
    | true => simp
    | false =>
      rw [if_neg Bool.false_ne_true, exists_ok, and_iff_right rfl]
      rfl
  | opening =>
    rw [hrole] at hread
    rw [hread]
    cases side with
    | host =>
      rw [exists_ok]
      exact goesOn_openHost hrole
    | path =>
      rw [exists_ok]
      exact goesOn_openPath hrole
  | closing =>
    rw [hrole] at hread
    cases outer with
    | nil =>
      dsimp only at hread
      rw [hread]
      exact iff_of_false (not_goesOn_close hrole) not_exists_ok
    | cons around outer =>
      dsimp only at hread
      rw [hread, goesOn_close hrole]
      by_cases hstop : side = .path ∨ row.head?.any Part.isDelimiter = true
      · rw [if_pos hstop, exists_ok, and_iff_right]
        · rfl
        · intro hhost
          subst hhost
          exact hstop.resolve_left nofun
      · rw [if_neg hstop]
        refine iff_of_false (fun h => hstop ?_) not_exists_ok
        cases side with
        | host => exact Or.inr (h.1 rfl)
        | path => exact Or.inl rfl

theorem goesOnRuled_cons (b : Builder) (name : String) (rules : List RuleCall) (call : RuleCall) :
    (fun more => b.GoesOnRuled side whole name rules (call :: more))
      = b.GoesOnRuled side whole name (call :: rules) := by
  funext more
  simp only [GoesOnRuled, List.reverse_cons, List.append_assoc, List.singleton_append]

/-- Behind an item, a builder reads a comma or the end of the list. -/
theorem behind_ok {γ : Type} {Item : γ → List Token → Prop} {K : List γ → List Token → Prop}
    {P : Builder → Prop} {more last : Builder} {e : UnexpectedToken}
    (hmore : Begins (Listed Item) K tokens ↔ P more) (hlast : K [] tokens ↔ P last) :
    Behind Item K (t :: tokens) ↔ ∃ b', (if t.isPunctuation "," = true then .ok more
      else if t.isPunctuation ")" = true then .ok last else .error e) = Except.ok b' ∧ P b' := by
  rw [behind_cons, hmore, hlast]
  by_cases hcomma : t.isPunctuation "," = true
  · have hclose : ¬ t.isPunctuation ")" = true := by
      rw [isPunctuation_eq hcomma]
      exact nofun
    rw [if_pos hcomma, exists_ok, or_iff_right fun h => hclose h.1, and_iff_right hcomma]
  · rw [if_neg hcomma, or_iff_left fun h => hcomma h.1]
    by_cases hclose : t.isPunctuation ")" = true
    · rw [if_pos hclose, exists_ok, and_iff_right hclose]
    · rw [if_neg hclose]
      exact iff_of_false (fun h => hclose h.1) not_exists_ok

theorem completes_readAfterRule {name : String} {rules : List RuleCall} :
    Behind SpellsCall (b.GoesOnRuled side whole name rules) (t :: tokens) ↔
      ∃ b', b.readAfterRule name rules t = .ok b' ∧ b'.Completes side whole tokens := by
  refine behind_ok Iff.rfl ?_
  rw [GoesOnRuled, List.append_nil]
  rfl

theorem paramOf?_iff {p : Param} : paramOf? t = some p ↔ t.StandsFor p := by
  unfold paramOf?
  constructor
  · intro h
    cases hkind : t.kind with
    | number =>
      rw [hkind] at h
      exact .number hkind h
    | quotedString =>
      rw [hkind] at h
      cases h
      exact .quoted hkind
    | text =>
      rw [hkind] at h
      cases h
      exact .text hkind
    | _ =>
      rw [hkind] at h
      cases h
  · intro h
    cases h with
    | number kind value => rw [kind]; exact value
    | quoted kind => rw [kind]
    | text kind => rw [kind]

theorem completes_readParam {name call : String} {rules : List RuleCall} {params : List Param} :
    Begins (Listed SpellsParam) (fun more => Behind SpellsCall (b.GoesOnRuled side whole name
        (⟨call, some (params.reverse ++ more)⟩ :: rules))) (t :: tokens) ↔
      ∃ b', b.readParam name rules call params t = .ok b' ∧ b'.Completes side whole tokens := by
  rw [begins_listed, begins_param_cons, readParam]
  cases hparam : paramOf? t with
  | none =>
    refine iff_of_false (fun h => ?_) not_exists_ok
    obtain ⟨p, stands, -⟩ := h
    rw [paramOf?_iff.mpr stands] at hparam
    cases hparam
  | some p =>
    rw [exists_ok]
    have hone : ∀ q, t.StandsFor q ↔ q = p := by
      intro q
      rw [← paramOf?_iff, hparam, Option.some.injEq, eq_comm]
    simp only [hone, exists_eq_left, Completes, List.reverse_cons, List.append_assoc,
      List.singleton_append]
    rfl

/-- Reading a token leaves what is still to come. -/
theorem completes_cons :
    b.Completes side whole (t :: tokens) ↔
      ∃ b', b.read side t = .ok b' ∧ b'.Completes side whole tokens := by
  obtain ⟨row, outer, awaiting⟩ := b
  cases awaiting with
  | part => exact completes_readPart (b := ⟨row, outer, .part⟩)
  | optionalSlash =>
    rw [Completes, read]
    dsimp only
    rw [exists_first]
    by_cases hslash : t.isPunctuation "/" = true
    · rw [if_pos hslash, exists_ok, and_iff_right hslash]
      rfl
    · rw [if_neg hslash]
      exact iff_of_false (fun h => hslash h.1) not_exists_ok
  | rules name =>
    rw [Completes, read]
    dsimp only
    rw [exists_first]
    by_cases hopen : t.isPunctuation "(" = true
    · rw [if_pos hopen, exists_ok, or_iff_right, and_iff_right hopen]
      · rfl
      · intro h
        exact Bool.false_ne_true (h.1.symm.trans hopen)
    · rw [if_neg hopen, ← completes_readPart, or_iff_left fun h => hopen h.1]
      exact and_iff_right (Bool.eq_false_iff.mpr hopen)
  | rule name rules =>
    rw [Completes, read]
    dsimp only
    rw [begins_listed, begins_call_cons]
    simp only [goesOnRuled_cons]
    by_cases hname : t.kind = .text
    · rw [if_pos hname, exists_ok, and_iff_right hname]
      rfl
    · rw [if_neg hname]
      exact iff_of_false (fun h => hname h.1) not_exists_ok
  | params name rules call =>
    rw [Completes, read]
    dsimp only
    rw [begins_params?, exists_first]
    by_cases hopen : t.isPunctuation "(" = true
    · rw [if_pos hopen, exists_ok, or_iff_right, and_iff_right hopen]
      · rfl
      · rw [behind_cons, isPunctuation_eq hopen, isPunctuation_eq hopen]
        intro h
        rcases h with h | h
        · cases h.1
        · cases h.1
    · rw [if_neg hopen, ← completes_readAfterRule, or_iff_left fun h => hopen h.1]
  | firstParam name rules call =>
    rw [Completes, read]
    dsimp only
    rw [begins_params, exists_first]
    by_cases hclose : t.isPunctuation ")" = true
    · rw [if_pos hclose, exists_ok, or_iff_left, and_iff_right hclose]
      · rfl
      · rw [begins_listed, begins_param_cons]
        intro h
        obtain ⟨p, stands, -⟩ := h
        exact stands.kind_ne_punctuation (kind_of_isPunctuation hclose)
    · rw [if_neg hclose, ← completes_readParam, or_iff_right fun h => hclose h.1]
      rfl
  | nextParam name rules call params => exact completes_readParam
  | afterParam name rules call params =>
    rw [Completes, read]
    dsimp only
    refine behind_ok Iff.rfl ?_
    rw [List.append_nil]
    rfl
  | afterRule name rules => exact completes_readAfterRule

theorem goesOn_nil_iff_close (stop : Token) :
    GoesOn side whole b.row b.outer [] ↔ b.close side stop = .ok whole := by
  rw [goesOn_nil, close]
  cases b.outer with
  | nil => simp
  | cons row outer => simp

/-- At the end nothing more is to come. -/
theorem completes_nil (stop : Token) :
    b.Completes side whole [] ↔ b.finish side stop = .ok whole := by
  obtain ⟨row, outer, awaiting⟩ := b
  cases awaiting with
  | part => exact goesOn_nil_iff_close (b := ⟨row, outer, .part⟩) stop
  | optionalSlash => simp [Completes, finish]
  | rules name =>
    simp only [Completes, finish, List.head?_nil, Option.any_none]
    rw [or_iff_left, true_and]
    · exact goesOn_nil_iff_close (b := ⟨.var ⟨name, []⟩ :: row, outer, .part⟩) stop
    · intro h
      obtain ⟨mark, rest, heq, -⟩ := h
      cases heq
  | rule name rules => simp [Completes, finish, begins_listed, begins_call_nil]
  | params name rules call => simp [Completes, finish, begins_params?, behind_nil]
  | firstParam name rules call => simp [Completes, finish, begins_params, begins_listed, begins_param_nil]
  | nextParam name rules call params => simp [Completes, finish, begins_listed, begins_param_nil]
  | afterParam name rules call params => simp [Completes, finish, behind_nil]
  | afterRule name rules => simp [Completes, finish, behind_nil]

theorem completes_run (stop : Token) :
    b.Completes side whole tokens ↔
      (tokens.foldlM (Builder.read side) b >>= fun b => b.finish side stop) = .ok whole := by
  induction tokens generalizing b with
  | nil => exact completes_nil stop
  | cons t tokens ih =>
    rw [completes_cons, List.foldlM_cons]
    constructor
    · intro h
      obtain ⟨b', hread, h⟩ := h
      rw [hread]
      exact ih.mp h
    · intro h
      cases hread : b.read side t with
      | error e =>
        rw [hread] at h
        cases h
      | ok b' =>
        rw [hread] at h
        exact ⟨b', rfl, ih.mpr h⟩

end

end Builder

/-! ## Sides -/

/-- The tokens of a host or path are read as the row that they spell. -/
theorem parseSide_ok_iff {side : Side} {tokens : List Token} {stop : Token} {parts : List (Part Slot)} :
    parseSide side tokens stop = .ok parts ↔ SpellsRow side false false parts tokens := by
  have hrun : Builder.Completes side parts {} tokens ↔ parseSide side tokens stop = .ok parts :=
    Builder.completes_run stop
  rw [← hrun]
  constructor
  · intro h
    obtain ⟨row, read, rest, rfl, hrow, rfl, rfl⟩ := h
    rw [List.append_nil]
    exact hrow
  · intro h
    exact ⟨parts, tokens, [], (List.append_nil _).symm, h, rfl, rfl⟩

/-! ## Templates -/

theorem cutAtSlash (tokens : List Token) :
    CutAtSlash tokens (tokens.takeWhile (!·.isPunctuation "/"))
      (tokens.dropWhile (!·.isPunctuation "/")) := by
  refine ⟨List.takeWhile_append_dropWhile.symm, fun t ht => ?_, ?_⟩
  · simpa using List.mem_takeWhile_imp ht
  · have hhead := List.head?_dropWhile_not (p := (!·.isPunctuation "/")) tokens
    cases hback : (tokens.dropWhile (!·.isPunctuation "/")).head? with
    | none => rfl
    | some t =>
      rw [hback] at hhead
      simpa using hhead

/-- Tokens are cut in one way. -/
theorem CutAtSlash.eq {tokens front back : List Token} (h : CutAtSlash tokens front back) :
    front = tokens.takeWhile (!·.isPunctuation "/") ∧
      back = tokens.dropWhile (!·.isPunctuation "/") := by
  obtain ⟨rfl, hfront, hback⟩ := h
  have hplain : ∀ t ∈ front, (!t.isPunctuation "/") = true := fun t ht => by simp [hfront t ht]
  rw [List.takeWhile_append_of_pos hplain, List.dropWhile_append_of_pos hplain]
  cases back with
  | nil => exact ⟨(List.append_nil front).symm, rfl⟩
  | cons t back =>
    have hslash : t.isPunctuation "/" = true := hback
    simp [hslash]

theorem except_bind_iff {ε β γ : Type} {x : Except ε β} {f : β → Except ε γ} {c : γ} :
    x >>= f = .ok c ↔ ∃ b, x = .ok b ∧ f b = .ok c := by
  constructor
  · exact except_bind_ok
  · intro h
    obtain ⟨b, rfl, h⟩ := h
    exact h

/-- What is read where a host and a path are given. -/
theorem parseBoth_ok_iff {front back : List Token} {stop stop' : Token} {template : Template} :
    (do
      let host ← parseSide .host front stop
      let path ← parseSide .path back stop'
      return ⟨some host, path⟩) = Except.ok template ↔
      ∃ host path, SpellsRow .host false false host front ∧ SpellsRow .path false false path back ∧
        template = ⟨some host, path⟩ := by
  simp only [except_bind_iff, parseSide_ok_iff]
  constructor
  · intro h
    obtain ⟨host, hhost, path, hpath, h⟩ := h
    exact ⟨host, path, hhost, hpath, (Except.ok.inj h).symm⟩
  · intro h
    obtain ⟨host, path, hhost, hpath, rfl⟩ := h
    exact ⟨host, hhost, path, hpath, rfl⟩

/-- A template is read from the tokens that spell it, up to the first end token. -/
theorem parse_ok_iff {tokens : List Token} {template : Template} :
    parse tokens = .ok template ↔ template.SpelledBy (tokens.takeWhile (·.kind ≠ .eof)) := by
  unfold parse splitSides
  generalize tokens.takeWhile (·.kind ≠ .eof) = body
  generalize (tokens.find? (·.kind = .eof)).getD .eof = stop
  have hcut := cutAtSlash body
  dsimp only
  by_cases hall : (body.takeWhile (!·.isPunctuation "/")).all Token.isBracket = true
  · rw [if_pos hall]
    dsimp only
    simp only [except_bind_iff, parseSide_ok_iff]
    rw [List.all_eq_true] at hall
    constructor
    · intro h
      obtain ⟨path, hpath, h⟩ := h
      cases h
      exact .path hcut hall hpath
    · intro h
      cases h with
      | path cut brackets spelled => exact ⟨_, spelled, rfl⟩
      | host cut more =>
        obtain ⟨t, ht, hmore⟩ := more
        rw [cut.eq.1] at ht
        exact absurd (hmore.symm.trans (hall t ht)) Bool.false_ne_true
  · have hboth : template.SpelledBy body ↔ ∃ host path,
        SpellsRow .host false false host (body.takeWhile (!·.isPunctuation "/")) ∧
          SpellsRow .path false false path (body.dropWhile (!·.isPunctuation "/")) ∧
          template = ⟨some host, path⟩ := by
      constructor
      · intro h
        cases h with
        | path cut brackets =>
          rw [cut.eq.1] at brackets
          exact absurd (List.all_eq_true.mpr brackets) hall
        | host cut more spelledHost spelledPath =>
          obtain ⟨rfl, rfl⟩ := cut.eq
          exact ⟨_, _, spelledHost, spelledPath, rfl⟩
      · intro h
        obtain ⟨host, path, hhost, hpath, rfl⟩ := h
        refine .host hcut ?_ hhost hpath
        rw [Bool.not_eq_true, List.all_eq_false] at hall
        obtain ⟨t, ht, hmore⟩ := hall
        exact ⟨t, ht, Bool.eq_false_iff.mpr hmore⟩
    rw [if_neg hall, hboth]
    cases hback : body.dropWhile (!·.isPunctuation "/") with
    | nil => exact parseBoth_ok_iff
    | cons t back => exact parseBoth_ok_iff

/-- In a path the first closing bracket ends the optional part, and the second one is a text. -/
example : parse [⟨.punctuation, "["⟩, ⟨.punctuation, "/"⟩, ⟨.text, "a"⟩, ⟨.punctuation, "]"⟩,
    ⟨.punctuation, "]"⟩] = .ok ⟨none, [.optional [.delimiter, .text "a"], .text "]"]⟩ := by rfl

theorem Template.SpelledBy.readsBack {template : Template} {tokens : List Token}
    (h : template.SpelledBy tokens) : ReadsBack tokens template.symbols := by
  cases h with
  | path cut brackets spelled => exact spelled.readsBack
  | host cut more spelledHost spelledPath =>
    rw [cut.joined]
    exact spelledHost.readsBack.append spelledPath.readsBack

/-- A template is spelled where the host and the path are well formed. -/
theorem exists_spelledBy_iff {tokens : List Token} :
    (∃ template : Template, template.SpelledBy tokens) ↔ ∃ front back, CutAtSlash tokens front back ∧
      ((∀ t ∈ front, t.isBracket = true) → WellFormed .path tokens) ∧
      ((∃ t ∈ front, t.isBracket = false) → WellFormed .host front ∧ WellFormed .path back) := by
  constructor
  · intro h
    obtain ⟨template, hspelled⟩ := h
    cases hspelled with
    | @path _ front back path cut brackets spelled =>
      refine ⟨front, back, cut, fun _ => ⟨path, spelled⟩, fun hmore => ?_⟩
      obtain ⟨t, ht, hmore⟩ := hmore
      exact absurd (hmore.symm.trans (brackets t ht)) Bool.false_ne_true
    | @host _ front back host path cut more spelledHost spelledPath =>
      refine ⟨front, back, cut, fun hall => ?_, fun _ => ⟨⟨host, spelledHost⟩, path, spelledPath⟩⟩
      obtain ⟨t, ht, hmore⟩ := more
      exact absurd (hmore.symm.trans (hall t ht)) Bool.false_ne_true
  · intro h
    obtain ⟨front, back, cut, hpath, hboth⟩ := h
    by_cases hall : ∀ t ∈ front, t.isBracket = true
    · obtain ⟨path, spelled⟩ := hpath hall
      exact ⟨⟨none, path⟩, .path cut hall spelled⟩
    · have hmore : ∃ t ∈ front, t.isBracket = false := by
        by_contra hnone
        exact hall fun t ht => Bool.of_not_eq_false fun h => hnone ⟨t, ht, h⟩
      obtain ⟨⟨host, spelledHost⟩, path, spelledPath⟩ := hboth hmore
      exact ⟨⟨some host, path⟩, .host cut hmore spelledHost spelledPath⟩

/-- The parser accepts exactly the tokens whose host and path are well formed, reads the template that
they spell, and loses none of them: read from left to right, the template gives every token back. The
first end token and what stands behind it do not count. -/
theorem parse_exact (tokens : List Token) :
    (∀ template, parse (TokenStream.closed tokens) = .ok template ↔
        template.SpelledBy (tokens.takeWhile (·.kind ≠ .eof))) ∧
      ((∃ template, parse (TokenStream.closed tokens) = .ok template) ↔
        ∃ front back, CutAtSlash (tokens.takeWhile (·.kind ≠ .eof)) front back ∧
          ((∀ t ∈ front, t.isBracket = true) →
            WellFormed .path (tokens.takeWhile (·.kind ≠ .eof))) ∧
          ((∃ t ∈ front, t.isBracket = false) → WellFormed .host front ∧ WellFormed .path back)) ∧
      ∀ template, parse (TokenStream.closed tokens) = .ok template →
        ReadsBack (tokens.takeWhile (·.kind ≠ .eof)) template.symbols := by
  have hiff : ∀ template, parse (TokenStream.closed tokens) = .ok template ↔
      template.SpelledBy (tokens.takeWhile (·.kind ≠ .eof)) := by
    intro template
    rw [parse_ok_iff, takeWhile_closed]
  refine ⟨hiff, ?_, fun template h => ((hiff template).mp h).readsBack⟩
  rw [← exists_spelledBy_iff]
  exact exists_congr hiff

end UriRouting

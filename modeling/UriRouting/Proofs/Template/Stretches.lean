import Mathlib.Data.List.TakeWhile
import UriRouting.Proofs.Template.Texts
/-!
How a template's text is read, told without the lexer's state.

`Stretch` says which stretch of the text is a token, from what follows it; `IsTextChar` says which
characters are text. `Reads` cuts a whole text into these and spaces. The lexer makes of a text the
tokens that it reads as, `lex_reads_iff`, and fails exactly where a text that it reads stands before an
over-long name or a quoted string without end, `lex_fault_iff`.
-/

namespace UriRouting

open Numeric Text

/-! ## What follows a stretch -/

/-- The text does not go on with a character of the kind. -/
def Stops (p : Char → Bool) (rest : List Char) : Prop := rest.head?.any p = false

/-- The text is over, or goes on with a colon or a quote, which no stretch before it takes in. -/
def Fresh (back : List Char) : Prop := ∀ c ∈ back.head?, c = ':' ∨ isQuote c = true

theorem fresh_nil : Fresh [] := fun _ hc => nomatch hc

section

variable {p : Char → Bool} {front back : List Char}

theorem stops_cons {c : Char} {rest : List Char} : Stops p (c :: rest) ↔ p c = false := by
  simp [Stops]

theorem Stops.shorten (h : Stops p (front ++ back)) : Stops p front := by
  cases front with
  | nil => rfl
  | cons c front => exact h

theorem Stops.lengthen (hback : Fresh back) (hp : p ':' = false ∧ ∀ c, isQuote c = true → p c = false)
    (h : Stops p front) : Stops p (front ++ back) := by
  cases front with
  | cons c front => exact h
  | nil =>
    cases back with
    | nil => exact h
    | cons c back =>
      refine stops_cons.mpr ?_
      rcases hback c rfl with rfl | hc
      · exact hp.1
      · exact hp.2 c hc

/-- A text cut where a kind of character ends. -/
theorem exists_span (p : Char → Bool) (cs : List Char) :
    ∃ front rest, cs = front ++ rest ∧ (∀ c ∈ front, p c = true) ∧ Stops p rest := by
  refine ⟨cs.takeWhile p, cs.dropWhile p, List.takeWhile_append_dropWhile.symm,
    fun c hc => List.mem_takeWhile_imp hc, ?_⟩
  have hhead := List.head?_dropWhile_not p cs
  unfold Stops
  cases hrest : (cs.dropWhile p).head? with
  | none => rfl
  | some c =>
    rw [hrest] at hhead
    simpa using hhead

end

theorem eq_of_isQuote {c : Char} (h : isQuote c = true) : c = '"' ∨ c = '\'' := by
  simpa [isQuote] using h

theorem isNameChar_fresh :
    isNameChar ':' = false ∧ ∀ c, isQuote c = true → isNameChar c = false := by
  refine ⟨by decide, fun c hc => ?_⟩
  rcases eq_of_isQuote hc with rfl | rfl <;> decide

theorem isNameStart_fresh :
    isNameStart ':' = false ∧ ∀ c, isQuote c = true → isNameStart c = false := by
  refine ⟨by decide, fun c hc => ?_⟩
  rcases eq_of_isQuote hc with rfl | rfl <;> decide

theorem isDigit_fresh : isDigit ':' = false ∧ ∀ c, isQuote c = true → isDigit c = false := by
  refine ⟨by decide, fun c hc => ?_⟩
  rcases eq_of_isQuote hc with rfl | rfl <;> decide

/-- The text does not go on with a point and a digit. -/
def StopsWhole (rest : List Char) : Prop := ∀ more, rest = '.' :: more → Stops isDigit more

theorem StopsWhole.shorten {front back : List Char} (h : StopsWhole (front ++ back)) :
    StopsWhole front := by
  rintro more rfl
  exact Stops.shorten (h (more ++ back) rfl)

theorem StopsWhole.lengthen {front back : List Char} (hback : Fresh back) (h : StopsWhole front) :
    StopsWhole (front ++ back) := by
  intro more hmore
  cases front with
  | cons c front =>
    obtain ⟨rfl, rfl⟩ := List.cons.inj hmore
    exact (h front rfl).lengthen hback isDigit_fresh
  | nil =>
    rw [List.nil_append] at hmore
    subst hmore
    rcases hback '.' rfl with hc | hc <;> cases hc

/-! ## Stretches -/

def IsName (cs : List Char) : Prop := cs.head?.any isNameStart = true ∧ ∀ c ∈ cs, isNameChar c = true

theorem IsDigits.not_mem {cs : List Char} (h : IsDigits cs) {c : Char} (hc : isDigit c = false) : c ∉ cs :=
  fun hmem => by cases (h.2 c hmem).symm.trans hc

theorem not_mem_fraction {whole cs : List Char} (before : IsDigits whole) (digits : IsDigits cs) {c : Char}
    (hc : isDigit c = false) (hpoint : c ≠ '.') : c ∉ whole ++ '.' :: cs := by
  intro hmem
  rcases List.mem_append.mp hmem with hmem | hmem
  · exact before.not_mem hc hmem
  · exact List.not_mem_cons_of_ne_of_not_mem hpoint (digits.not_mem hc) hmem

/-- What stands for a value between quotes: a backslash stands before each character that is one or the
quote, and may stand before any other. -/
inductive Unescapes (quote : Char) : List Char → List Char → Prop
  | nil : Unescapes quote [] []
  | plain {c : Char} {inside value : List Char} (backslash : c ≠ '\\') (other : c ≠ quote)
    (rest : Unescapes quote inside value) : Unescapes quote (c :: inside) (c :: value)
  | escaped {c : Char} {inside value : List Char} (rest : Unescapes quote inside value) :
    Unescapes quote ('\\' :: c :: inside) (c :: value)

/-- `front`, with `rest` behind it, is a token. `depth` is that of parentheses, and `text` is the
text that is pending. -/
inductive Stretch (depth : Nat) (text rest : List Char) : List Char → Token → Prop
  | punctuation {c : Char} (mark : isPunctuationChar c = true) :
    Stretch depth text rest [c] ⟨.punctuation, String.ofList [c]⟩
  | var {name : List Char} (letters : IsName name) (short : name.length ≤ maxNameLength)
    (stop : Stops isNameChar rest) : Stretch depth text rest (':' :: name) ⟨.var, String.ofList name⟩
  | digits {cs : List Char} (digits : IsDigits cs) (none : text = []) (stop : Stops isDigit rest)
    (whole : StopsWhole rest) : Stretch depth text rest cs ⟨.number, String.ofList cs⟩
  | fraction {whole cs : List Char} (digitsBefore : IsDigits whole) (digits : IsDigits cs)
    (none : text = []) (stop : Stops isDigit rest) :
    Stretch depth text rest (whole ++ '.' :: cs) ⟨.number, String.ofList (whole ++ '.' :: cs)⟩
  | quoted {quote : Char} {inside value : List Char} (mark : isQuote quote = true) (deep : 0 < depth)
    (unescapes : Unescapes quote inside value) :
    Stretch depth text rest (quote :: (inside ++ [quote])) ⟨.quotedString, String.ofList value⟩

/-- `c`, with `rest` behind it, is a character of a text. -/
structure IsTextChar (depth : Nat) (text rest : List Char) (c : Char) : Prop where
  space : c ≠ ' '
  mark : isPunctuationChar c = false
  colon : c = ':' → Stops isNameStart rest
  quote : isQuote c = true → depth = 0
  digit : isDigit c = true → text ≠ []

section

variable {depth : Nat} {text front back : List Char}

theorem Stretch.shorten {t : Token} {cs : List Char} (h : Stretch depth text (front ++ back) cs t) :
    Stretch depth text front cs t := by
  cases h with
  | punctuation mark => exact .punctuation mark
  | var letters short stop => exact .var letters short stop.shorten
  | digits digits none stop whole => exact .digits digits none stop.shorten whole.shorten
  | fraction before digits none stop => exact .fraction before digits none stop.shorten
  | quoted mark deep unescapes => exact .quoted mark deep unescapes

theorem Stretch.lengthen {t : Token} {cs : List Char} (hback : Fresh back)
    (h : Stretch depth text front cs t) : Stretch depth text (front ++ back) cs t := by
  cases h with
  | punctuation mark => exact .punctuation mark
  | var letters short stop => exact .var letters short (stop.lengthen hback isNameChar_fresh)
  | digits digits none stop whole =>
    exact .digits digits none (stop.lengthen hback isDigit_fresh) (whole.lengthen hback)
  | fraction before digits none stop =>
    exact .fraction before digits none (stop.lengthen hback isDigit_fresh)
  | quoted mark deep unescapes => exact .quoted mark deep unescapes

theorem filter_spaceless {cs : List Char} (h : ' ' ∉ cs) : cs.filter (· ≠ ' ') = cs :=
  List.filter_eq_self.mpr fun _ hc => decide_eq_true (ne_of_mem_of_not_mem hc h)

/-- Only quoted strings have spaces. -/
theorem Stretch.spaceless {t : Token} {rest cs : List Char} (h : Stretch depth text rest cs t)
    (hkind : t.kind ≠ .quotedString) : ' ' ∉ cs := by
  cases h with
  | punctuation mark =>
    intro hspace
    rw [← List.mem_singleton.mp hspace] at mark
    cases mark
  | var letters => exact List.not_mem_cons_of_ne_of_not_mem (by decide) fun hspace => by cases letters.2 _ hspace
  | digits digits => exact digits.not_mem rfl
  | fraction before digits => exact not_mem_fraction before digits rfl (by decide)
  | quoted => exact absurd rfl hkind

theorem Stretch.ne_nil {t : Token} {rest cs : List Char} (h : Stretch depth text rest cs t) : cs ≠ [] := by
  cases h with
  | punctuation => exact List.cons_ne_nil _ _
  | var => exact List.cons_ne_nil _ _
  | digits digits => exact digits.1
  | fraction => simp
  | quoted => exact List.cons_ne_nil _ _

theorem IsTextChar.shorten {c : Char} (h : IsTextChar depth text (front ++ back) c) :
    IsTextChar depth text front c :=
  ⟨h.space, h.mark, fun hc => (h.colon hc).shorten, h.quote, h.digit⟩

theorem IsTextChar.lengthen {c : Char} (hback : Fresh back) (h : IsTextChar depth text front c) :
    IsTextChar depth text (front ++ back) c :=
  ⟨h.space, h.mark, fun hc => (h.colon hc).lengthen hback isNameStart_fresh, h.quote, h.digit⟩

end

/-! ## Whole texts -/

/-- The token of a pending text. -/
def textTokens : List Char → List Token
  | [] => []
  | text => [⟨.text, String.ofList text⟩]

theorem textTokens_of_ne_nil {text : List Char} (h : text ≠ []) :
    textTokens text = [⟨.text, String.ofList text⟩] := by
  cases text with
  | nil => exact absurd rfl h
  | cons c text => rfl

/-- How a text is read to its end, behind finished tokens that led to `n` and behind a pending text. -/
inductive Reads : Nesting → List Char → List Char → List Token → Prop
  | done {n : Nesting} {text : List Char} : Reads n text [] (textTokens text)
  | space {n : Nesting} {text cs : List Char} {tokens : List Token} (rest : Reads n text cs tokens) :
    Reads n text (' ' :: cs) tokens
  | letter {n : Nesting} {text cs : List Char} {c : Char} {tokens : List Token}
    (letter : IsTextChar n.depth text cs c) (rest : Reads n (text ++ [c]) cs tokens) :
    Reads n text (c :: cs) tokens
  | token {n : Nesting} {text front cs : List Char} {t : Token} {tokens : List Token}
    (stretch : Stretch n.depth text cs front t)
    (rest : Reads (nest n (textTokens text ++ [t])) [] cs tokens) :
    Reads n text (front ++ cs) (textTokens text ++ t :: tokens)

/-- What no token or text begins with: a name that is too long, or a quoted string without end. -/
inductive Fault (depth offset : Nat) : List Char → LexError → Prop
  | name {name rest : List Char} (letters : IsName name) (long : maxNameLength < name.length)
    (stop : Stops isNameChar rest) :
    Fault depth offset (':' :: (name ++ rest)) (.nameTooLong (String.ofList name))
  | quote {quote : Char} {rest : List Char} (mark : isQuote quote = true) (deep : 0 < depth)
    (unended : ∀ inside more value, rest = inside ++ quote :: more → ¬ Unescapes quote inside value) :
    Fault depth offset (quote :: rest) (.unterminated offset)

theorem Fault.fresh {depth offset : Nat} {cs : List Char} {e : LexError} (h : Fault depth offset cs e) :
    Fresh cs := by
  intro c hc
  cases h with
  | name => exact Or.inl (Option.some.inj hc).symm
  | quote mark => exact Or.inr (Option.some.inj hc ▸ mark)

theorem nest_textTokens_depth (n : Nesting) (text : List Char) :
    (nest n (textTokens text)).depth = n.depth := by
  cases text with
  | nil => rfl
  | cons c text => exact Nesting.step_depth (by simp)

theorem nest_append (n : Nesting) (front back : List Token) :
    nest n (front ++ back) = nest (nest n front) back := by
  rw [nest, List.foldl_append]
  rfl

/-- Outside parentheses, a token leads inside only if it is the one that opens those of a variable. -/
theorem Nesting.step_outside {n : Nesting} {t : Token} (hdepth : n.depth = 0)
    (h : n.behindVar = true → t.isPunctuation "(" = false) : (n.step t).depth = 0 := by
  cases hopen : t.isPunctuation "(" with
  | false => simp [step, hopen, hdepth]
  | true =>
    have hbehind : n.behindVar = false := Bool.eq_false_iff.mpr fun hb => by simp [h hb] at hopen
    simp [step, hdepth, hbehind]

/-! ## Bytes -/

/-- The length of a text in bytes. -/
def byteLength (cs : List Char) : Nat := (String.ofList cs).utf8ByteSize

@[simp]
theorem byteLength_nil : byteLength [] = 0 := by simp [byteLength]

@[simp]
theorem byteLength_append (front back : List Char) :
    byteLength (front ++ back) = byteLength front + byteLength back := by
  rw [byteLength, String.ofList_append, String.utf8ByteSize_append]
  rfl

@[simp]
theorem byteLength_cons (c : Char) (cs : List Char) :
    byteLength (c :: cs) = c.utf8Size + byteLength cs := by
  rw [← List.singleton_append, byteLength_append, byteLength,
    show String.ofList [c] = String.singleton c from rfl, String.utf8ByteSize_singleton]

/-! ## Every text -/

/-- What a first character may be: a space, text, the start of a token or a fault. -/
def Begun (depth offset : Nat) (text : List Char) (c : Char) (cs : List Char) : Prop :=
  c = ' ' ∨ IsTextChar depth text cs c ∨
    (∃ front rest t, c :: cs = front ++ rest ∧ Stretch depth text rest front t) ∨
    ∃ e, Fault depth offset (c :: cs) e

section

variable (depth offset : Nat) (text : List Char)

theorem begun_colon (cs : List Char) : Begun depth offset text ':' cs := by
  cases hstart : cs.head?.any isNameStart with
  | false =>
    exact Or.inr (Or.inl ⟨by decide, by decide, fun _ => hstart, (by cases ·), (by cases ·)⟩)
  | true =>
    obtain ⟨name, rest, rfl, hname, hstop⟩ := exists_span isNameChar cs
    have hletters : IsName name := by
      refine ⟨?_, hname⟩
      cases name with
      | cons d name => exact hstart
      | nil =>
        cases rest with
        | nil => cases hstart
        | cons d rest =>
          have hd : isNameChar d = true := by
            have hd : isNameStart d = true := hstart
            simp only [isNameStart, Bool.or_eq_true, decide_eq_true_eq] at hd
            simp only [isNameChar, Char.isAlphanum, Bool.or_eq_true, decide_eq_true_eq]
            exact hd.imp_left Or.inl
          rw [stops_cons.mp hstop] at hd
          cases hd
    by_cases hlong : maxNameLength < name.length
    · exact Or.inr (Or.inr (Or.inr ⟨_, .name hletters hlong hstop⟩))
    · exact Or.inr (Or.inr (Or.inl
        ⟨':' :: name, rest, _, rfl, .var hletters (Nat.not_lt.mp hlong) hstop⟩))

theorem begun_quote {quote : Char} (mark : isQuote quote = true) (deep : 0 < depth) (cs : List Char) :
    Begun depth offset text quote cs := by
  by_cases hended : ∃ inside more value, cs = inside ++ quote :: more ∧ Unescapes quote inside value
  · obtain ⟨inside, more, value, rfl, hinside⟩ := hended
    exact Or.inr (Or.inr (Or.inl ⟨_, more, _, by simp, .quoted mark deep hinside⟩))
  · exact Or.inr (Or.inr (Or.inr ⟨_, .quote mark deep fun inside more value hcs hinside =>
      hended ⟨inside, more, value, hcs, hinside⟩⟩))

theorem begun_digit {c : Char} (hc : isDigit c = true) (cs : List Char) :
    Begun depth offset [] c cs := by
  obtain ⟨digits, rest, rfl, hdigits, hstop⟩ := exists_span isDigit cs
  have hwhole : IsDigits (c :: digits) := .cons hc hdigits
  by_cases hpoint : StopsWhole rest
  · exact Or.inr (Or.inr (Or.inl ⟨_, rest, _, rfl, .digits hwhole rfl hstop hpoint⟩))
  · have hmore : ∃ more, rest = '.' :: more ∧ more.head?.any isDigit = true := by
      simpa [StopsWhole, Stops] using hpoint
    obtain ⟨more, rfl, hmore⟩ := hmore
    obtain ⟨fraction, rest, rfl, hfraction, hstop'⟩ := exists_span isDigit more
    have hne : fraction ≠ [] := by
      rintro rfl
      rw [List.nil_append, hstop'] at hmore
      cases hmore
    exact Or.inr (Or.inr (Or.inl ⟨(c :: digits) ++ '.' :: fraction, rest, _, by simp,
      .fraction hwhole ⟨hne, hfraction⟩ rfl hstop'⟩))

theorem begun (c : Char) (cs : List Char) : Begun depth offset text c cs := by
  by_cases hspace : c = ' '
  · exact Or.inl hspace
  by_cases hmark : isPunctuationChar c = true
  · exact Or.inr (Or.inr (Or.inl ⟨[c], cs, _, rfl, .punctuation hmark⟩))
  by_cases hcolon : c = ':'
  · exact hcolon ▸ begun_colon depth offset text cs
  by_cases hquote : isQuote c = true ∧ 0 < depth
  · exact begun_quote depth offset text hquote.1 hquote.2 cs
  by_cases hdigit : isDigit c = true ∧ text = []
  · exact hdigit.2 ▸ begun_digit depth offset hdigit.1 cs
  · refine Or.inr (Or.inl ⟨hspace, by simpa using hmark, fun h => absurd h hcolon, ?_, ?_⟩)
    · intro h
      exact Nat.eq_zero_of_not_pos fun hdeep => hquote ⟨h, hdeep⟩
    · exact fun h htext => hdigit ⟨h, htext⟩

end

/-- The text reads up to a fault. -/
def Faulty (n : Nesting) (text : List Char) (offset : Nat) (cs : List Char) : Prop :=
  ∃ front back tokens e, cs = front ++ back ∧ Reads n text front tokens ∧
    Fault (nest n tokens).depth (offset + byteLength front) back e

/-- Every text reads, to its end or up to a fault. -/
theorem reads_or_faulty (n : Nesting) (text : List Char) (offset : Nat) (cs : List Char) :
    (∃ tokens, Reads n text cs tokens) ∨ Faulty n text offset cs := by
  induction hlength : cs.length using Nat.strongRecOn generalizing n text offset cs with
  | ind length ih =>
    subst hlength
    cases cs with
    | nil => exact Or.inl ⟨_, .done⟩
    | cons c cs =>
      rcases begun n.depth offset text c cs with rfl | hletter | ⟨front, rest, t, hcs, hstretch⟩ | ⟨e, hfault⟩
      · rcases ih cs.length (by simp) n text (offset + ' '.utf8Size) cs rfl with
          ⟨tokens, htokens⟩ | ⟨front, back, tokens, e, rfl, htokens, hfault⟩
        · exact Or.inl ⟨_, .space htokens⟩
        · refine Or.inr ⟨' ' :: front, back, _, e, rfl, .space htokens, ?_⟩
          rwa [byteLength_cons, ← Nat.add_assoc]
      · rcases ih cs.length (by simp) n (text ++ [c]) (offset + c.utf8Size) cs rfl with
          ⟨tokens, htokens⟩ | ⟨front, back, tokens, e, rfl, htokens, hfault⟩
        · exact Or.inl ⟨_, .letter hletter htokens⟩
        · refine Or.inr ⟨c :: front, back, _, e, rfl, .letter hletter.shorten htokens, ?_⟩
          rwa [byteLength_cons, ← Nat.add_assoc]
      · have hshorter : rest.length < (c :: cs).length := by
          rw [hcs, List.length_append]
          have hne := List.length_pos_iff.mpr hstretch.ne_nil
          omega
        rw [hcs]
        rcases ih rest.length hshorter _ [] (offset + byteLength front) rest rfl with
          ⟨tokens, htokens⟩ | ⟨more, back, tokens, e, rfl, htokens, hfault⟩
        · exact Or.inl ⟨_, .token hstretch htokens⟩
        · refine Or.inr ⟨front ++ more, back, _, e, by simp, .token hstretch.shorten htokens, ?_⟩
          rw [byteLength_append, ← Nat.add_assoc, List.append_cons, nest_append]
          exact hfault
      · refine Or.inr ⟨[], c :: cs, _, e, rfl, .done, ?_⟩
        rwa [nest_textTokens_depth]

end UriRouting

import UriRouting.Proofs.Template.Stretches
/-!
The lexer reads a template's text as `Reads` tells: `lex_reads_iff`, `lex_fault_iff`.

Each stretch takes a scan between lexemes to a scan between lexemes that has one more token.
-/

namespace UriRouting

open Numeric Text

namespace Scan

/-- Reading to the end of a text. -/
def run (s : Scan) (cs : List Char) : Except LexError (List Token) :=
  cs.foldlM read s >>= finish

theorem run_nil (s : Scan) : s.run [] = s.finish := rfl

theorem run_cons (s : Scan) (c : Char) (cs : List Char) : s.run (c :: cs) = s.read c >>= (·.run cs) := by
  rw [run, List.foldlM_cons, bind_assoc]
  rfl

/-- What settling does with the lexeme in progress. -/
theorem settle_cases {s s' : Scan} (h : s.settle = .ok s') :
    s.lexeme = .none ∧ s' = s ∨ s' = { s with text := ':' :: s.text, lexeme := .none } ∨
      (∃ kind chars, s' = s.emit kind chars) ∨
      ∃ chars, s' = (s.emit .number chars).emitPunctuation '.' := by
  unfold settle at h
  split at h
  · next hnone => exact Or.inl ⟨hnone, (Except.ok.inj h).symm⟩
  · exact Or.inr (Or.inl (Except.ok.inj h).symm)
  · split at h
    · cases h
    · exact Or.inr (Or.inr (Or.inl ⟨_, _, (Except.ok.inj h).symm⟩))
  · exact Or.inr (Or.inr (Or.inl ⟨_, _, (Except.ok.inj h).symm⟩))
  · exact Or.inr (Or.inr (Or.inl ⟨_, _, (Except.ok.inj h).symm⟩))
  · exact Or.inr (Or.inr (Or.inr ⟨_, (Except.ok.inj h).symm⟩))
  · cases h
  · cases h

theorem settle_lexeme {s s' : Scan} (h : s.settle = .ok s') : s'.lexeme = .none := by
  rcases settle_cases h with ⟨hnone, rfl⟩ | rfl | ⟨kind, chars, rfl⟩ | ⟨chars, rfl⟩
  · exact hnone
  all_goals rfl

/-- A character that is no part of the lexeme in progress finds it settled. -/
theorem run_settle {s : Scan} {cs : List Char} (h : ∀ c ∈ cs.head?, s.extend? c = none) :
    s.run cs = s.settle >>= (·.run cs) := by
  cases hsettle : s.settle with
  | error e =>
    cases cs with
    | nil =>
      rw [run_nil, finish, hsettle]
      rfl
    | cons c cs =>
      rw [run_cons, read, h c rfl, hsettle]
      rfl
  | ok s' =>
    have hnone := settle_lexeme hsettle
    have hsettle' : s'.settle = .ok s' := by simp only [settle, hnone]
    cases cs with
    | nil =>
      rw [run_nil, finish, hsettle]
      change _ = s'.finish
      rw [finish, hsettle']
    | cons c cs =>
      have hextend' : s'.extend? c = none := by simp only [extend?, hnone]
      change _ = s'.run (c :: cs)
      rw [run_cons, run_cons, read, read, h c rfl, hsettle, hextend', hsettle']

theorem run_extend {s s' : Scan} {c : Char} {cs : List Char} (h : s.extend? c = some s') :
    s.run (c :: cs) = (s'.advance c).run cs := by
  rw [run_cons, read, h]
  rfl

theorem run_begin {s : Scan} (h : s.lexeme = .none) (c : Char) (cs : List Char) :
    s.run (c :: cs) = ((s.begin c).advance c).run cs := by
  have hextend : s.extend? c = none := by simp only [extend?, h]
  have hsettle : s.settle = .ok s := by simp only [settle, h]
  rw [run_cons, read, hextend, hsettle]
  rfl

/-- A lexeme that takes in characters of a kind one by one takes in a row of them. -/
theorem run_grow {form : List Char → Lexeme} {p : Char → Bool}
    (hform : ∀ (s : Scan) (chars : List Char) (c : Char), s.lexeme = form chars → p c = true →
      s.extend? c = some { s with lexeme := form (c :: chars) })
    {cs : List Char} (hcs : ∀ c ∈ cs, p c = true) (rest : List Char) {s : Scan} {chars : List Char}
    (hs : s.lexeme = form chars) :
    s.run (cs ++ rest)
      = Scan.run { s with lexeme := form (cs.reverse ++ chars), offset := s.offset + byteLength cs } rest := by
  induction cs generalizing s chars with
  | nil =>
    rw [List.reverse_nil, List.nil_append, List.nil_append, ← hs, byteLength_nil]
    rfl
  | cons c cs ih =>
    rw [List.cons_append, run_extend (hform s chars c hs (hcs c List.mem_cons_self)),
      ih (fun d hd => hcs d (List.mem_cons_of_mem c hd)) rfl]
    simp [advance, Nat.add_assoc]

theorem run_unescapes {quote : Char} {inside value : List Char} (h : Unescapes quote inside value)
    (rest : List Char) {s : Scan} {start : Nat} {chars : List Char}
    (hs : s.lexeme = .quoted quote start chars) :
    s.run (inside ++ rest) = Scan.run
      { s with lexeme := .quoted quote start (value.reverse ++ chars), offset := s.offset + byteLength inside }
      rest := by
  induction h generalizing s chars with
  | nil =>
    rw [List.reverse_nil, List.nil_append, List.nil_append, ← hs, byteLength_nil]
    rfl
  | @plain c inside value backslash other _ ih =>
    have hextend : s.extend? c = some { s with lexeme := .quoted quote start (c :: chars) } := by
      simp only [extend?, hs, if_neg backslash, if_neg other]
    rw [List.cons_append, run_extend hextend, ih rfl]
    simp [advance, Nat.add_assoc]
  | @escaped c inside value _ ih =>
    have hextend : s.extend? '\\' = some { s with lexeme := .escaped quote start chars } := by
      simp only [extend?, hs, if_pos]
    rw [List.cons_append, List.cons_append, run_extend hextend, run_extend rfl, ih rfl]
    simp [advance, Nat.add_assoc]

/-- What a scan holds besides the lexeme in progress: finished tokens and pending text. -/
structure Holds (s : Scan) (tokens : List Token) (text : List Char) : Prop where
  sound : s.Sound
  done : s.done = tokens
  text : s.text.reverse = text

/-- A scan between lexemes, at an offset in bytes. -/
structure Between (s : Scan) (tokens : List Token) (text : List Char) (offset : Nat) : Prop
    extends s.Holds tokens text where
  lexeme : s.lexeme = .none
  offset : s.offset = offset

theorem between_start : Between {} [] [] 0 := ⟨⟨sound_start, rfl, rfl⟩, rfl, rfl⟩

theorem flush_done (s : Scan) : s.flush.done = s.done ++ textTokens s.text.reverse := by
  unfold flush
  split
  · next hnil =>
    rw [hnil]
    exact (List.append_nil _).symm
  · next hne =>
    rw [textTokens_of_ne_nil (by simpa using hne)]
    exact List.reverse_cons

theorem emit_offset (s : Scan) (kind : TokenKind) (chars : List Char) :
    (s.emit kind chars).offset = s.offset := by
  unfold emit flush
  split <;> rfl

section

variable {s : Scan} {text : List Char} {tokens : List Token} {offset : Nat}

theorem Holds.depth (h : s.Holds tokens text) : s.depth = (nest {} tokens).depth := by
  rw [h.sound.depth, h.done]

theorem Holds.emit_done (h : s.Holds tokens text) (kind : TokenKind) (chars : List Char) :
    (s.emit kind chars).done = tokens ++ (textTokens text ++ [⟨kind, String.ofList chars.reverse⟩]) := by
  rw [Scan.emit_done, flush_done, h.done, h.text, List.append_assoc]

/-- A finished token that is no mark. -/
theorem Holds.emit (h : s.Holds tokens text) {kind : TokenKind} {chars cs : List Char}
    (hchars : chars.reverse = cs) (hkind : kind ≠ .punctuation)
    (hspelled : ∀ {n : Nesting}, n.depth = s.depth → Token.Spelled n ⟨kind, String.ofList cs⟩) :
    (s.emit kind chars).Between (tokens ++ (textTokens text ++ [⟨kind, String.ofList cs⟩])) []
      s.offset := by
  subst hchars
  refine ⟨⟨h.sound.emit hkind (hspelled h.sound.flush.2.1), h.emit_done kind chars, ?_⟩, rfl,
    emit_offset s kind chars⟩
  rw [emit_text]
  rfl

theorem Holds.emitPunctuation (h : s.Holds tokens text) {c : Char} (hc : isPunctuationChar c = true) :
    (s.emitPunctuation c).Between (tokens ++ (textTokens text ++ [⟨.punctuation, String.ofList [c]⟩])) []
      s.offset :=
  ⟨⟨h.sound.emitPunctuation hc, h.emit_done .punctuation [c],
    congrArg List.reverse (s.emit_text .punctuation [c])⟩, rfl, emit_offset s .punctuation [c]⟩

theorem Between.advance (h : s.Between tokens text offset) (c : Char) :
    (s.advance c).Between tokens text (offset + c.utf8Size) :=
  ⟨⟨⟨h.sound.tokens, h.sound.depth, h.sound.text, h.sound.lexeme⟩, h.done, h.text⟩, h.lexeme,
    congrArg (· + c.utf8Size) h.offset⟩

theorem Between.space (h : s.Between tokens text offset) (cs : List Char) :
    ∃ s' : Scan, s'.Between tokens text (offset + ' '.utf8Size) ∧ s.run (' ' :: cs) = s'.run cs :=
  ⟨s.advance ' ', h.advance ' ', run_begin h.lexeme ' ' cs⟩

theorem Between.push (h : s.Between tokens text offset) {c : Char} (hc : isPunctuationChar c = false) :
    Between { s with text := c :: s.text } tokens (text ++ [c]) offset := by
  refine ⟨⟨⟨h.sound.tokens, h.sound.depth, fun d hd => ?_, h.sound.lexeme⟩, h.done, ?_⟩, h.lexeme, h.offset⟩
  · rcases List.mem_cons.mp hd with rfl | hd
    · exact hc
    · exact h.sound.text d hd
  · rw [List.reverse_cons, h.text]

/-- A colon that no name follows is text. -/
theorem Between.colon (h : s.Between tokens text offset) {cs : List Char} (stop : Stops isNameStart cs) :
    ∃ s' : Scan, s'.Between tokens (text ++ [':']) (offset + ':'.utf8Size) ∧
      s.run (':' :: cs) = s'.run cs := by
  refine ⟨{ s with text := ':' :: s.text }.advance ':', (h.push (by decide)).advance ':', ?_⟩
  rw [run_begin h.lexeme, run_settle]
  · simp [begin, isPunctuationChar, Scan.advance, settle, h.lexeme, bind, Except.bind]
  · intro c hc
    cases cs with
    | nil => cases hc
    | cons d cs =>
      cases hc
      simp [begin, isPunctuationChar, Scan.advance, extend?, stops_cons.mp stop]

theorem begin_text {c : Char} {text cs : List Char} (h : IsTextChar s.depth text cs c)
    (htext : s.text.reverse = text) (hcolon : c ≠ ':') : s.begin c = { s with text := c :: s.text } := by
  have hquote : (isQuote c && decide (0 < s.depth)) = false := by
    cases hc : isQuote c with
    | false => rfl
    | true => simp [h.quote hc]
  have hdigit : (isDigit c && decide (s.text = [])) = false := by
    cases hc : isDigit c with
    | false => rfl
    | true =>
      have hne := h.digit hc
      rw [← htext] at hne
      simpa using hne
  simp [begin, h.space, h.mark, hcolon, hquote, hdigit]

theorem Between.letter (h : s.Between tokens text offset) {c : Char} {cs : List Char}
    (letter : IsTextChar (nest {} tokens).depth text cs c) :
    ∃ s' : Scan, s'.Between tokens (text ++ [c]) (offset + c.utf8Size) ∧
      s.run (c :: cs) = s'.run cs := by
  by_cases hcolon : c = ':'
  · subst hcolon
    exact h.colon (letter.colon rfl)
  · refine ⟨{ s with text := c :: s.text }.advance c, (h.push letter.mark).advance c, ?_⟩
    rw [← h.depth] at letter
    rw [run_begin h.lexeme, begin_text letter h.text hcolon]

/-! ### Tokens -/

theorem Holds.inLexeme (h : s.Holds tokens text) (lexeme : Lexeme) (hlexeme : lexeme.Sound s.depth)
    (offset : Nat) : Holds { s with lexeme := lexeme, offset := offset } tokens text :=
  ⟨⟨h.sound.tokens, h.sound.depth, h.sound.text, hlexeme⟩, h.done, h.text⟩

theorem emit_lexeme (s : Scan) (lexeme : Lexeme) (kind : TokenKind) (chars : List Char) :
    emit { s with lexeme := lexeme } kind chars = s.emit kind chars := by
  unfold emit flush
  dsimp only
  split <;> rfl

theorem emit_advance (s : Scan) (c : Char) (kind : TokenKind) (chars : List Char) :
    (s.advance c).emit kind chars = (s.emit kind chars).advance c := by
  by_cases htext : s.text = [] <;> simp [emit, flush, advance, htext]

theorem emitPunctuation_advance (s : Scan) (c mark : Char) :
    (s.advance c).emitPunctuation mark = (s.emitPunctuation mark).advance c := by
  rw [emitPunctuation, emitPunctuation, emit_advance]
  rfl

theorem run_name (s : Scan) {name rest : List Char} (hname : IsName name) (stop : Stops isNameChar rest)
    (h : s.lexeme = .none) :
    s.run (':' :: (name ++ rest)) = settle
      { s with lexeme := .name name.reverse, offset := s.offset + byteLength (':' :: name) }
        >>= (·.run rest) := by
  obtain ⟨hhead, hchars⟩ := hname
  cases name with
  | nil => cases hhead
  | cons c name =>
    have hcolon : s.begin ':' = { s with lexeme := .colon } := by simp [begin, isPunctuationChar]
    have hextend : extend? (advance { s with lexeme := .colon } ':') c
        = some { s.advance ':' with lexeme := .name [c] } := if_pos hhead
    have hgrow : ∀ (s : Scan) (chars : List Char) (c : Char), s.lexeme = .name chars →
        isNameChar c = true → s.extend? c = some { s with lexeme := .name (c :: chars) } := by
      intro s chars c hs hc
      simp only [extend?, hs, if_pos hc]
    rw [run_begin h, hcolon, List.cons_append, run_extend hextend,
      run_grow hgrow (fun d hd => hchars d (List.mem_cons_of_mem c hd)) rest rfl, run_settle]
    · simp [advance, Nat.add_assoc]
    · intro d hd
      cases rest with
      | nil => cases hd
      | cons e rest =>
        cases hd
        simp [extend?, stops_cons.mp stop]

theorem run_digits {cs : List Char} (hcs : IsDigits cs) (rest : List Char) (h : s.lexeme = .none)
    (htext : s.text = []) :
    s.run (cs ++ rest)
      = Scan.run { s with lexeme := .digits cs.reverse, offset := s.offset + byteLength cs } rest := by
  obtain ⟨hne, hdigits⟩ := hcs
  cases cs with
  | nil => exact absurd rfl hne
  | cons c cs =>
    have hc := hdigits c List.mem_cons_self
    have hbegin : s.begin c = { s with lexeme := .digits [c] } := by
      have hspace : c ≠ ' ' := fun h => by rw [h] at hc; cases hc
      have hcolon : c ≠ ':' := fun h => by rw [h] at hc; cases hc
      have hquote : isQuote c = false := by
        rw [← Bool.not_eq_true]
        intro h
        rw [isDigit_fresh.2 c h] at hc
        cases hc
      simp [begin, hspace, isPunctuationChar_of_digit hc, hcolon, hquote, hc, htext]
    have hgrow : ∀ (s : Scan) (chars : List Char) (c : Char), s.lexeme = .digits chars →
        isDigit c = true → s.extend? c = some { s with lexeme := .digits (c :: chars) } := by
      intro s chars c hs hc
      simp only [extend?, hs, if_pos hc]
    rw [List.cons_append, run_begin h, hbegin,
      run_grow hgrow (fun d hd => hdigits d (List.mem_cons_of_mem c hd)) rest rfl]
    simp [advance, Nat.add_assoc]

theorem run_fraction {cs : List Char} (hcs : IsDigits cs) (rest : List Char) {whole : List Char}
    (h : s.lexeme = .digits whole) :
    s.run ('.' :: (cs ++ rest)) = Scan.run
      { s with lexeme := .fraction (cs.reverse ++ '.' :: whole),
               offset := s.offset + byteLength ('.' :: cs) } rest := by
  obtain ⟨hne, hdigits⟩ := hcs
  cases cs with
  | nil => exact absurd rfl hne
  | cons c cs =>
    have hpoint : s.extend? '.' = some { s with lexeme := .point whole } := by
      simp only [extend?, h, if_neg (show ¬ isDigit '.' = true by decide), if_pos]
    have hextend : extend? (advance { s with lexeme := .point whole } '.') c
        = some { s.advance '.' with lexeme := .fraction (c :: '.' :: whole) } :=
      if_pos (hdigits c List.mem_cons_self)
    have hgrow : ∀ (s : Scan) (chars : List Char) (c : Char), s.lexeme = .fraction chars →
        isDigit c = true → s.extend? c = some { s with lexeme := .fraction (c :: chars) } := by
      intro s chars c hs hc
      simp only [extend?, hs, if_pos hc]
    rw [run_extend hpoint, List.cons_append, run_extend hextend,
      run_grow hgrow (fun d hd => hdigits d (List.mem_cons_of_mem c hd)) rest rfl]
    simp [advance, Nat.add_assoc]

/-- Behind a number, the lexeme ends, also where a point follows. -/
theorem run_afterDigits {chars rest : List Char} (h : s.lexeme = .digits chars) (stop : Stops isDigit rest)
    (whole : StopsWhole rest) : s.run rest = (s.emit .number chars).run rest := by
  have hsettle : s.settle = .ok (s.emit .number chars) := by simp only [settle, h]
  cases rest with
  | nil =>
    rw [run_settle (fun c hc => by cases hc), hsettle]
    rfl
  | cons c rest =>
    have hc : ¬ isDigit c = true := by simp [stops_cons.mp stop]
    by_cases hpoint : c = '.'
    · subst hpoint
      have hextend : s.extend? '.' = some { s with lexeme := .point chars } := by
        simp only [extend?, h, if_neg hc, if_pos]
      have hmark : (s.emit .number chars).begin '.' = (s.emit .number chars).emitPunctuation '.' := by
        simp [begin, isPunctuationChar]
      rw [run_extend hextend, run_begin rfl, hmark, run_settle]
      · change ((emit (advance { s with lexeme := .point chars } '.') _ _).emitPunctuation '.').run _ = _
        rw [emit_advance, emit_lexeme, emitPunctuation_advance]
      · intro d hd
        cases rest with
        | nil => cases hd
        | cons e rest =>
          cases hd
          simp [extend?, advance, stops_cons.mp (whole _ rfl)]
    · rw [run_settle, hsettle]
      · rfl
      · intro d hd
        cases hd
        simp only [extend?, h, if_neg hc, if_neg hpoint]

theorem run_afterFraction {chars rest : List Char} (h : s.lexeme = .fraction chars)
    (stop : Stops isDigit rest) : s.run rest = (s.emit .number chars).run rest := by
  have hsettle : s.settle = .ok (s.emit .number chars) := by simp only [settle, h]
  rw [run_settle, hsettle]
  · rfl
  · intro c hc
    cases rest with
    | nil => cases hc
    | cons d rest =>
      cases hc
      simp [extend?, h, stops_cons.mp stop]

theorem run_quoted {quote : Char} {inside value : List Char} (mark : isQuote quote = true)
    (deep : 0 < s.depth) (unescapes : Unescapes quote inside value) (rest : List Char)
    (h : s.lexeme = .none) :
    s.run (quote :: (inside ++ quote :: rest)) = (emit
      { s with lexeme := .quoted quote s.offset value.reverse,
               offset := s.offset + byteLength (quote :: (inside ++ [quote])) }
      .quotedString value.reverse).run rest := by
  have hbegin : s.begin quote = { s with lexeme := .quoted quote s.offset [] } := by
    rcases eq_of_isQuote mark with rfl | rfl <;> simp [begin, isPunctuationChar, isQuote, deep]
  have hquote : quote ≠ '\\' := by
    rcases eq_of_isQuote mark with rfl | rfl <;> decide
  have hclose : ∀ {s : Scan} {start : Nat} {chars : List Char}, s.lexeme = .quoted quote start chars →
      s.extend? quote = some (s.emit .quotedString chars) := by
    intro s start chars hs
    simp only [extend?, hs, if_neg hquote, if_pos]
  rw [run_begin h, hbegin, run_unescapes unescapes (quote :: rest) rfl, run_extend (hclose rfl),
    ← emit_advance]
  simp [advance, Nat.add_assoc]

/-- A scan reads a stretch as its token. -/
theorem Between.stretch (h : s.Between tokens text offset) {cs rest : List Char} {t : Token}
    (stretch : Stretch (nest {} tokens).depth text rest cs t) :
    ∃ s' : Scan, s'.Between (tokens ++ (textTokens text ++ [t])) [] (offset + byteLength cs) ∧
      s.run (cs ++ rest) = s'.run rest := by
  have hnone : text = [] → s.text = [] := by
    rintro rfl
    simpa using h.text
  rw [← h.depth] at stretch
  obtain ⟨hholds, hlexeme, rfl⟩ := h
  cases stretch with
  | @punctuation c mark =>
    refine ⟨(s.emitPunctuation c).advance c, ?_, ?_⟩
    · simpa using (hholds.emitPunctuation mark).advance c
    · have hspace : c ≠ ' ' := fun h => by rw [h] at mark; cases mark
      rw [List.singleton_append, run_begin hlexeme]
      simp [begin, hspace, mark]
  | @var name letters short stop =>
    refine ⟨_, (hholds.inLexeme (.name name.reverse) trivial _).emit (List.reverse_reverse name)
      (by simp) fun _ => .var _, ?_⟩
    rw [List.cons_append, run_name s letters stop hlexeme]
    simp only [settle, List.length_reverse, if_neg (Nat.not_lt.mpr short)]
    rfl
  | digits digits none stop whole =>
    refine ⟨_, (hholds.inLexeme (.digits cs.reverse) digits.reverse _).emit
      (List.reverse_reverse cs) (by simp) fun _ => .digits digits, ?_⟩
    rw [run_digits digits rest hlexeme (hnone none), run_afterDigits rfl stop whole]
  | @fraction whole cs before digits none stop =>
    have hreverse : (cs.reverse ++ '.' :: whole.reverse).reverse = whole ++ '.' :: cs := by simp
    refine ⟨_, (hholds.inLexeme (.fraction (cs.reverse ++ '.' :: whole.reverse))
      ⟨_, _, before.reverse, digits.reverse, rfl⟩ _).emit hreverse (by simp)
      fun _ => .fraction before digits, ?_⟩
    rw [List.append_assoc, run_digits before _ hlexeme (hnone none), List.cons_append,
      run_fraction digits rest rfl, run_afterFraction rfl stop]
    simp [Nat.add_assoc]
  | @quoted quote inside value mark deep unescapes =>
    refine ⟨_, (hholds.inLexeme (.quoted quote s.offset value.reverse) ⟨mark, deep⟩ _).emit
      (List.reverse_reverse value) (by simp) fun hdepth => .quotedString _ (hdepth ▸ deep), ?_⟩
    rw [List.cons_append, List.append_assoc, List.singleton_append,
      run_quoted mark deep unescapes rest hlexeme]

/-! ### Whole texts -/

theorem Between.run_nil (h : s.Between tokens text offset) :
    s.run [] = .ok (tokens ++ textTokens text) := by
  have hsettle : s.settle = .ok s := by simp only [settle, h.lexeme]
  rw [Scan.run_nil, finish, hsettle, ← h.done, ← h.text, ← flush_done]
  rfl

/-- A scan that has read a text goes on behind it, if what is behind belongs to no stretch before. -/
theorem Between.reads {n : Nesting} {front back : List Char} {added : List Token}
    (h : Reads n text front added) (hback : Fresh back) (hs : s.Between tokens text offset)
    (hn : n = nest {} tokens) :
    ∃ s' tokens' text', Between s' tokens' text' (offset + byteLength front) ∧
      tokens' ++ textTokens text' = tokens ++ added ∧ s.run (front ++ back) = s'.run back := by
  induction h generalizing s tokens offset with
  | done => exact ⟨s, tokens, _, hs, rfl, rfl⟩
  | @space n text cs added rest ih =>
    obtain ⟨s', hs', hrun⟩ := hs.space (cs ++ back)
    obtain ⟨s'', tokens', text', hs'', htokens, hrun'⟩ := ih hs' hn
    exact ⟨s'', tokens', text', by rwa [byteLength_cons, ← Nat.add_assoc], htokens, hrun.trans hrun'⟩
  | @letter n text cs c added letter rest ih =>
    obtain ⟨s', hs', hrun⟩ := hs.letter (hn ▸ letter.lengthen hback)
    obtain ⟨s'', tokens', text', hs'', htokens, hrun'⟩ := ih hs' hn
    exact ⟨s'', tokens', text', by rwa [byteLength_cons, ← Nat.add_assoc], htokens, hrun.trans hrun'⟩
  | @token n text front cs t added stretch rest ih =>
    obtain ⟨s', hs', hrun⟩ := hs.stretch (hn ▸ stretch.lengthen hback)
    obtain ⟨s'', tokens', text', hs'', htokens, hrun'⟩ := ih hs' (by rw [hn, ← nest_append])
    refine ⟨s'', tokens', text', by rwa [byteLength_append, ← Nat.add_assoc], ?_, ?_⟩
    · simpa using htokens
    · rw [List.append_assoc, hrun, hrun']

/-- Inside a quoted string without end, the scan comes to the end of the text. -/
theorem run_unended {quote : Char} {start : Nat} {chars : List Char} (h : s.lexeme = .quoted quote start chars)
    {rest : List Char}
    (unended : ∀ inside more value, rest = inside ++ quote :: more → ¬ Unescapes quote inside value) :
    s.run rest = .error (.unterminated start) := by
  induction hlength : rest.length using Nat.strongRecOn generalizing s rest chars with
  | ind length ih =>
    subst hlength
    cases rest with
    | nil =>
      rw [Scan.run_nil, finish, settle, h]
      rfl
    | cons c rest =>
      by_cases hbackslash : c = '\\'
      · subst hbackslash
        have hextend : s.extend? '\\' = some { s with lexeme := .escaped quote start chars } := by
          simp only [extend?, h, if_pos]
        rw [run_extend hextend]
        cases rest with
        | nil => rfl
        | cons d rest =>
          rw [run_extend rfl]
          refine ih rest.length (by simp only [List.length_cons]; omega) rfl (fun inside more value hrest hinside => ?_) rfl
          exact unended ('\\' :: d :: inside) more (d :: value) (by rw [hrest]; rfl) (.escaped hinside)
      · have hquote : c ≠ quote := by
          rintro rfl
          exact unended [] rest [] rfl .nil
        have hextend : s.extend? c = some { s with lexeme := .quoted quote start (c :: chars) } := by
          simp only [extend?, h, if_neg hbackslash, if_neg hquote]
        rw [run_extend hextend]
        refine ih rest.length (by simp) rfl (fun inside more value hrest hinside => ?_) rfl
        exact unended (c :: inside) more (c :: value) (by rw [hrest]; rfl)
          (.plain hbackslash hquote hinside)

theorem Between.fault (h : s.Between tokens text offset) {cs : List Char} {e : LexError}
    (hfault : Fault (nest {} tokens).depth offset cs e) : s.run cs = .error e := by
  rw [← h.depth] at hfault
  obtain ⟨-, hlexeme, rfl⟩ := h
  cases hfault with
  | @name name rest letters long stop =>
    rw [run_name s letters stop hlexeme]
    simp only [settle, List.length_reverse, if_pos long, List.reverse_reverse]
    rfl
  | @quote quote rest mark deep unended =>
    have hbegin : s.begin quote = { s with lexeme := .quoted quote s.offset [] } := by
      rcases eq_of_isQuote mark with rfl | rfl <;> simp [begin, isPunctuationChar, isQuote, deep]
    rw [run_begin hlexeme, hbegin, run_unended rfl unended]

theorem Between.run_ok (h : s.Between tokens text offset) {cs : List Char} {added : List Token}
    (hreads : Reads (nest {} tokens) text cs added) : s.run cs = .ok (tokens ++ added) := by
  obtain ⟨s', tokens', text', hs', htokens, hrun⟩ :=
    h.reads hreads fresh_nil rfl
  rw [← List.append_nil cs, hrun, hs'.run_nil, htokens]

theorem Between.run_error (h : s.Between tokens text offset) {front back : List Char}
    {added : List Token} {e : LexError} (hreads : Reads (nest {} tokens) text front added)
    (hfault : Fault (nest {} (tokens ++ added)).depth (offset + byteLength front) back e) :
    s.run (front ++ back) = .error e := by
  obtain ⟨s', tokens', text', hs', htokens, hrun⟩ := h.reads hreads hfault.fresh rfl
  rw [← htokens, nest_append, nest_textTokens_depth] at hfault
  rw [hrun, hs'.fault hfault]

/-- What is left of a text gives the tokens that it reads as. -/
theorem Between.run_ok_iff (h : s.Between tokens text offset) {cs : List Char} {all : List Token} :
    s.run cs = .ok all ↔ ∃ added, Reads (nest {} tokens) text cs added ∧ all = tokens ++ added := by
  constructor
  · intro hrun
    rcases reads_or_faulty (nest {} tokens) text offset cs with
      ⟨added, hreads⟩ | ⟨front, back, added, e, rfl, hreads, hfault⟩
    · rw [h.run_ok hreads] at hrun
      exact ⟨added, hreads, (Except.ok.inj hrun).symm⟩
    · rw [← nest_append] at hfault
      rw [h.run_error hreads hfault] at hrun
      cases hrun
  · rintro ⟨added, hreads, rfl⟩
    exact h.run_ok hreads

end

end Scan

/-! ## The lexer -/

/-- The lexer makes the tokens that a text reads as. -/
theorem lex_reads_iff {text : String} {tokens : List Token} :
    lex text = .ok tokens ↔ Reads {} [] text.toList tokens := by
  change Scan.run {} text.toList = _ ↔ _
  rw [Scan.between_start.run_ok_iff]
  simp [nest]

/-- The lexer fails where a text that it reads stands before a fault. -/
theorem lex_fault_iff {text : String} {e : LexError} :
    lex text = .error e ↔ ∃ front back tokens, text.toList = front ++ back ∧
      lex (String.ofList front) = .ok tokens ∧
      Fault (nest {} tokens).depth (byteLength front) back e := by
  have hfails : ∀ {front back tokens e}, text.toList = front ++ back → Reads {} [] front tokens →
      Fault (nest {} tokens).depth (byteLength front) back e → lex text = .error e := by
    intro front back tokens e hcs hreads hfault
    change Scan.run {} text.toList = _
    rw [hcs]
    exact Scan.between_start.run_error hreads (by simpa using hfault)
  constructor
  · intro herror
    rcases reads_or_faulty {} [] 0 text.toList with
      ⟨tokens, hreads⟩ | ⟨front, back, tokens, e', hcs, hreads, hfault⟩
    · rw [lex_reads_iff.mpr hreads] at herror
      cases herror
    · rw [Nat.zero_add] at hfault
      rw [hfails hcs hreads hfault] at herror
      cases herror
      exact ⟨front, back, tokens, hcs, lex_reads_iff.mpr (by rwa [String.toList_ofList]), hfault⟩
  · rintro ⟨front, back, tokens, hcs, hfront, hfault⟩
    rw [lex_reads_iff, String.toList_ofList] at hfront
    exact hfails hcs hfront hfault

/-! ## Moments -/

namespace Scan

theorem flush_keeps (s : Scan) : s.done <+: s.flush.done := by
  rw [flush_done]
  exact List.prefix_append _ _

theorem emit_keeps (s : Scan) (kind : TokenKind) (chars : List Char) :
    s.done <+: (s.emit kind chars).done := by
  rw [emit_done]
  exact s.flush_keeps.trans (List.prefix_append _ _)

theorem emitPunctuation_keeps (s : Scan) (c : Char) : s.done <+: (s.emitPunctuation c).done :=
  s.emit_keeps .punctuation [c]

theorem settle_keeps {s s' : Scan} (h : s.settle = .ok s') : s.done <+: s'.done := by
  rcases settle_cases h with ⟨-, rfl⟩ | rfl | ⟨kind, chars, rfl⟩ | ⟨chars, rfl⟩
  · exact List.prefix_rfl
  · exact List.prefix_rfl
  · exact s.emit_keeps kind chars
  · exact (s.emit_keeps _ _).trans (emitPunctuation_keeps _ _)

theorem begin_keeps (s : Scan) (c : Char) : s.done <+: (s.begin c).done := by
  unfold begin
  split_ifs
  · exact List.prefix_rfl
  · exact s.emitPunctuation_keeps c
  all_goals exact List.prefix_rfl

theorem extend_keeps {s s' : Scan} {c : Char} (h : s.extend? c = some s') : s.done <+: s'.done := by
  unfold extend? at h
  split at h
  case h_7 =>
    -- a closing quote ends the token
    rw [Option.some.injEq] at h
    subst h
    split_ifs
    · exact List.prefix_rfl
    · exact s.emit_keeps _ _
    · exact List.prefix_rfl
  all_goals
    repeat' split at h
    all_goals
      cases h
      try exact List.prefix_rfl

theorem read_keeps {s s' : Scan} {c : Char} (h : s.read c = .ok s') : s.done <+: s'.done := by
  unfold read at h
  cases hextend : s.extend? c with
  | some s₁ =>
    rw [hextend] at h
    cases h
    change s.done <+: s₁.done
    exact extend_keeps hextend
  | none =>
    rw [hextend] at h
    cases hsettle : s.settle with
    | error e =>
      rw [hsettle] at h
      cases h
    | ok s₁ =>
      rw [hsettle] at h
      cases h
      exact (settle_keeps hsettle).trans (s₁.begin_keeps c)

/-- Finished tokens stay. -/
theorem run_keeps {s : Scan} {cs : List Char} {tokens : List Token} (h : s.run cs = .ok tokens) :
    s.done <+: tokens := by
  induction cs generalizing s with
  | nil =>
    rw [run_nil, finish] at h
    cases hsettle : s.settle with
    | error e =>
      rw [hsettle] at h
      cases h
    | ok s' =>
      rw [hsettle] at h
      cases h
      exact (settle_keeps hsettle).trans s'.flush_keeps
  | cons c cs ih =>
    rw [run_cons] at h
    obtain ⟨s', hread, h⟩ := except_bind_ok h
    exact (read_keeps hread).trans (ih h)

theorem settle_depth {s s' : Scan} (h : s.settle = .ok s') : s'.depth = s.depth := by
  rcases settle_cases h with ⟨-, rfl⟩ | rfl | ⟨kind, chars, rfl⟩ | ⟨chars, rfl⟩
  · rfl
  · rfl
  · exact s.emit_depth kind chars
  · simp [emitPunctuation, depthAfter, emit_depth]

/-- Behind the last character, the count of parentheses is that of all tokens. -/
theorem Sound.finish_depth {s : Scan} (h : s.Sound) {tokens : List Token} (hfinish : s.finish = .ok tokens) :
    s.depth = (nest {} tokens).depth := by
  unfold finish at hfinish
  cases hsettle : s.settle with
  | error e =>
    rw [hsettle] at hfinish
    cases hfinish
  | ok s' =>
    rw [hsettle] at hfinish
    cases hfinish
    rw [← settle_depth hsettle]
    exact (h.settle hsettle).1.flush.2.1.symm

end Scan

/-- Before any part of its text, a template that is lexed has been read by a scan. -/
theorem exists_scan {text : String} {tokens : List Token} (h : lex text = .ok tokens)
    {front back : List Char} (hcs : text.toList = front ++ back) :
    ∃ s : Scan, front.foldlM Scan.read {} = .ok s ∧ s.Sound ∧ s.run back = .ok tokens := by
  change text.toList.foldlM Scan.read {} >>= Scan.finish = _ at h
  rw [hcs, List.foldlM_append, bind_assoc] at h
  obtain ⟨s, hs, h⟩ := except_bind_ok h
  exact ⟨s, hs, Scan.sound_start.run hs, h⟩

/-- A pending text goes on into the first token. -/
theorem Reads.text_first {n : Nesting} {text cs : List Char} {tokens : List Token}
    (h : Reads n text cs tokens) (hne : text ≠ []) :
    ∃ behind after, tokens = ⟨.text, String.ofList (text ++ behind)⟩ :: after := by
  induction h with
  | done => exact ⟨[], [], by rw [textTokens_of_ne_nil hne, List.append_nil]⟩
  | space rest ih => exact ih hne
  | @letter n text cs c tokens letter rest ih =>
    obtain ⟨behind, after, htokens⟩ := ih (by simp)
    exact ⟨c :: behind, after, by rw [htokens, List.append_assoc]; rfl⟩
  | token stretch rest ih =>
    exact ⟨[], _, by rw [textTokens_of_ne_nil hne, List.append_nil]; rfl⟩

/-- Outside parentheses behind a variable, no lexeme goes on with a quote. -/
theorem Scan.Sound.extend_quote {s : Scan} (h : s.Sound) (hdepth : s.depth = 0) {quote : Char}
    (mark : isQuote quote = true) : s.extend? quote = none := by
  have hlexeme := h.lexeme
  have hpoint : quote ≠ '.' := fun hq => by rw [hq] at mark; cases mark
  cases hl : s.lexeme with
  | none => simp only [Scan.extend?, hl]
  | colon => simp [Scan.extend?, hl, isNameStart_fresh.2 quote mark]
  | name => simp [Scan.extend?, hl, isNameChar_fresh.2 quote mark]
  | digits => simp [Scan.extend?, hl, isDigit_fresh.2 quote mark, hpoint]
  | point => simp [Scan.extend?, hl, isDigit_fresh.2 quote mark]
  | fraction => simp [Scan.extend?, hl, isDigit_fresh.2 quote mark]
  | quoted | escaped =>
    rw [hl, hdepth] at hlexeme
    exact absurd hlexeme.2 (Nat.lt_irrefl 0)

/-- Outside parentheses behind a variable, a quote ends what is in progress and is text. -/
theorem quote_in_text {text : String} {tokens : List Token} (h : lex text = .ok tokens)
    {front back : List Char} {quote : Char} (hcs : text.toList = front ++ quote :: back)
    (mark : isQuote quote = true) {s : Scan} (hs : front.foldlM Scan.read {} = .ok s)
    (hdepth : s.depth = 0) :
    ∃ before inside behind after,
      tokens = before ++ ⟨.text, String.ofList (inside ++ quote :: behind)⟩ :: after ∧
        lex (String.ofList front) = .ok (before ++ textTokens inside) ∧ (nest {} before).depth = 0 := by
  obtain ⟨s₀, hs₀, hsound, hrun⟩ := exists_scan h hcs
  cases Except.ok.inj (hs.symm.trans hs₀)
  have hend : ∀ c ∈ (quote :: back).head?, s.extend? c = none := by
    intro c hc
    cases hc
    exact hsound.extend_quote hdepth mark
  rw [Scan.run_settle hend] at hrun
  obtain ⟨s', hsettle, hrun⟩ := except_bind_ok hrun
  have hdepth' : (nest {} s'.done).depth = 0 := by
    rw [← (hsound.settle hsettle).1.depth, Scan.settle_depth hsettle, hdepth]
  have hbetween : s'.Between s'.done s'.text.reverse s'.offset :=
    ⟨⟨(hsound.settle hsettle).1, rfl, rfl⟩, Scan.settle_lexeme hsettle, rfl⟩
  have hletter : IsTextChar (nest {} s'.done).depth s'.text.reverse back quote := by
    rcases eq_of_isQuote mark with rfl | rfl
    all_goals exact ⟨by decide, by decide, (by cases ·), fun _ => hdepth', (by cases ·)⟩
  obtain ⟨s'', hs'', hread⟩ := hbetween.letter hletter
  rw [hread, hs''.run_ok_iff] at hrun
  obtain ⟨added, hreads, rfl⟩ := hrun
  obtain ⟨behind, after, rfl⟩ := hreads.text_first (by simp)
  refine ⟨s'.done, s'.text.reverse, behind, after, by simp, ?_, hdepth'⟩
  change (String.ofList front).toList.foldlM Scan.read {} >>= Scan.finish = _
  rw [String.toList_ofList, hs]
  change s.finish = _
  rw [Scan.finish, hsettle, ← Scan.flush_done]
  rfl

end UriRouting

import UriRouting.Proofs.Template.Tokens
/-!
Lexing on behind tokens.

Tokens that are finished do not matter for what follows, unless a parenthesis would stand right behind
a variable: `Scan.onto` puts tokens under those of a scan, and `read_onto` says that the lexer does the
same with them and without them. Only the places of unterminated strings move. Punctuation outside
quotes ends the lexeme in front of it: `read_mark`, `settles_before`.
-/

namespace UriRouting

open Numeric

/-- A lexeme in a text that begins some bytes later. -/
def Lexeme.moved (k : Nat) : Lexeme → Lexeme
  | .quoted quote start chars => .quoted quote (start + k) chars
  | .escaped quote start chars => .escaped quote (start + k) chars
  | lexeme => lexeme

def LexError.moved (k : Nat) : LexError → LexError
  | .unterminated offset => .unterminated (offset + k)
  | e => e

namespace Scan

/-- A scan that has finished other tokens before, in `k` bytes. They are given newest first. -/
def onto (k : Nat) (base : List Token) (s : Scan) : Scan :=
  ⟨s.offset + k, s.depth, s.tokens ++ base, s.text, s.lexeme.moved k⟩

/-- What a step of a scan gives behind other tokens. -/
def movedOnto (k : Nat) (base : List Token) : Except LexError Scan → Except LexError Scan
  | .ok s => .ok (s.onto k base)
  | .error e => .error (e.moved k)

section

variable {k : Nat} {base : List Token}

theorem onto_flush (s : Scan) : (s.onto k base).flush = s.flush.onto k base := by
  unfold flush
  rw [show (s.onto k base).text = s.text from rfl]
  split <;> rfl

theorem onto_emit (s : Scan) (kind : TokenKind) (chars : List Char) :
    (s.onto k base).emit kind chars = (s.emit kind chars).onto k base := by
  unfold emit
  rw [onto_flush]
  rfl

theorem onto_depthAfter (hbase : base.head?.any (·.kind = .var) = false) (s : Scan) (c : Char) :
    (s.onto k base).depthAfter c = s.depthAfter c := by
  have hfollows : (s.onto k base).followsVariable = s.followsVariable := by
    obtain ⟨offset, depth, tokens, text, lexeme⟩ := s
    cases tokens with
    | nil => exact congrArg (decide (text = []) && ·) hbase
    | cons t tokens => rfl
  unfold depthAfter
  rw [hfollows]
  rfl

theorem onto_emitPunctuation (hbase : base.head?.any (·.kind = .var) = false) (s : Scan) (c : Char) :
    (s.onto k base).emitPunctuation c = (s.emitPunctuation c).onto k base := by
  unfold emitPunctuation
  rw [onto_emit, onto_depthAfter hbase]
  rfl

theorem onto_begin (hbase : base.head?.any (·.kind = .var) = false) (s : Scan) (c : Char) :
    (s.onto k base).begin c = (s.begin c).onto k base := by
  unfold begin
  split
  · rfl
  · split
    · exact onto_emitPunctuation hbase s c
    · split
      · rfl
      · rw [show (s.onto k base).depth = s.depth from rfl, show (s.onto k base).text = s.text from rfl]
        split
        · rfl
        · split <;> rfl

theorem onto_settle (hbase : base.head?.any (·.kind = .var) = false) (s : Scan) :
    (s.onto k base).settle = movedOnto k base s.settle := by
  unfold settle
  rw [show (s.onto k base).lexeme = s.lexeme.moved k from rfl]
  cases hlexeme : s.lexeme with
  | none => rfl
  | colon => rfl
  | name chars =>
    simp only [Lexeme.moved]
    split
    · rfl
    · exact congrArg Except.ok (onto_emit s _ _)
  | digits chars => exact congrArg Except.ok (onto_emit s _ _)
  | fraction chars => exact congrArg Except.ok (onto_emit s _ _)
  | point chars =>
    refine congrArg Except.ok ?_
    rw [onto_emit, onto_emitPunctuation hbase]
  | quoted quote start chars => rfl
  | escaped quote start chars => rfl

theorem onto_extend? (s : Scan) (c : Char) :
    (s.onto k base).extend? c = (s.extend? c).map (onto k base) := by
  unfold extend?
  rw [show (s.onto k base).lexeme = s.lexeme.moved k from rfl]
  cases s.lexeme with
  | none => rfl
  | colon =>
    simp only [Lexeme.moved]
    split <;> rfl
  | name chars =>
    simp only [Lexeme.moved]
    split <;> rfl
  | digits chars =>
    simp only [Lexeme.moved]
    split
    · rfl
    · split <;> rfl
  | point chars =>
    simp only [Lexeme.moved]
    split <;> rfl
  | fraction chars =>
    simp only [Lexeme.moved]
    split <;> rfl
  | quoted quote start chars =>
    simp only [Lexeme.moved]
    split
    · rfl
    · split
      · exact congrArg some (onto_emit s _ _)
      · rfl
  | escaped quote start chars => rfl

theorem onto_advance (s : Scan) (c : Char) : (s.onto k base).advance c = (s.advance c).onto k base := by
  unfold advance onto
  rw [Nat.add_right_comm]

theorem read_onto (hbase : base.head?.any (·.kind = .var) = false) (s : Scan) (c : Char) :
    (s.onto k base).read c = movedOnto k base (s.read c) := by
  unfold read
  rw [onto_extend?]
  cases s.extend? c with
  | some s' => exact congrArg Except.ok (onto_advance s' c)
  | none =>
    rw [onto_settle hbase]
    cases s.settle with
    | error e => rfl
    | ok s' =>
      refine congrArg Except.ok ?_
      show ((s'.onto k base).begin c).advance c = ((s'.begin c).advance c).onto k base
      rw [onto_begin hbase, onto_advance]

theorem run_onto (hbase : base.head?.any (·.kind = .var) = false) (cs : List Char) (s : Scan) :
    cs.foldlM Scan.read (s.onto k base) = movedOnto k base (cs.foldlM Scan.read s) := by
  induction cs generalizing s with
  | nil => rfl
  | cons c cs ih =>
    rw [List.foldlM_cons, List.foldlM_cons, read_onto hbase]
    cases s.read c with
    | error e => rfl
    | ok s' => exact ih s'

theorem run_onto_ok (hbase : base.head?.any (·.kind = .var) = false) {cs : List Char} {s last : Scan}
    (h : cs.foldlM Scan.read (s.onto k base) = .ok last) :
    ∃ last', cs.foldlM Scan.read s = .ok last' ∧ last = last'.onto k base := by
  rw [run_onto hbase] at h
  cases hrun : cs.foldlM Scan.read s with
  | error e =>
    rw [hrun] at h
    cases h
  | ok last' =>
    rw [hrun] at h
    cases h
    exact ⟨last', rfl, rfl⟩

/-- The tokens that are finished behind others come after them. -/
theorem finish_onto_ok (hbase : base.head?.any (·.kind = .var) = false) {s : Scan} {tokens : List Token} :
    (s.onto k base).finish = .ok tokens ↔ ∃ rest, s.finish = .ok rest ∧ tokens = base.reverse ++ rest := by
  unfold finish
  rw [onto_settle hbase]
  cases s.settle with
  | error e => simp [movedOnto, Except.map]
  | ok s' =>
    have hflush : (s'.onto k base).flush.tokens.reverse = base.reverse ++ s'.flush.tokens.reverse := by
      rw [onto_flush]
      exact List.reverse_append
    simp [movedOnto, Except.map, hflush, eq_comm]

end

/-! ## Punctuation -/

theorem plain_of_punctuation {c : Char} (hc : isPunctuationChar c = true) :
    isDigit c = false ∧ isNameStart c = false ∧ isNameChar c = false ∧ isQuote c = false ∧
      c ≠ ' ' ∧ c ≠ '\\' := by
  simp only [isPunctuationChar, List.contains_eq_mem, List.mem_cons, List.not_mem_nil, or_false,
    decide_eq_true_eq] at hc
  rcases hc with rfl | rfl | rfl | rfl | rfl | rfl | rfl <;> decide

/-- A punctuation character ends what is in progress, unless it is the point of a number. -/
theorem read_mark {s s' : Scan} (h : s.settle = .ok s') {c : Char} (hc : isPunctuationChar c = true)
    (hpoint : ∀ chars, s.lexeme = .digits chars → c ≠ '.') :
    s.read c = .ok (onto 0 (⟨.punctuation, String.ofList [c]⟩ :: s'.flush.tokens)
      ⟨s'.offset + c.utf8Size, s'.depthAfter c, [], [], .none⟩) := by
  obtain ⟨hdigit, hstart, hname, -, hspace, -⟩ := plain_of_punctuation hc
  have hends : s.extend? c = none := by
    unfold settle at h
    unfold extend?
    split at h
    · next hlexeme => rw [hlexeme]
    · next hlexeme => simp only [hlexeme, hstart, Bool.false_eq_true, if_false]
    · next hlexeme => simp only [hlexeme, hname, Bool.false_eq_true, if_false]
    · next chars hlexeme =>
      simp only [hlexeme, hdigit, Bool.false_eq_true, if_false, if_neg (hpoint chars hlexeme)]
    · next hlexeme => simp only [hlexeme, hdigit, Bool.false_eq_true, if_false]
    · next hlexeme => simp only [hlexeme, hdigit, Bool.false_eq_true, if_false]
    · cases h
    · cases h
  have hbegin : s'.begin c = s'.emitPunctuation c := by
    unfold begin
    rw [if_neg hspace, if_pos hc]
  have hmark : s'.emitPunctuation c = onto 0 (⟨.punctuation, String.ofList [c]⟩ :: s'.flush.tokens)
      ⟨s'.offset, s'.depthAfter c, [], [], .none⟩ := by
    unfold emitPunctuation emit flush
    dsimp only
    split
    · next htext =>
      rw [htext]
      rfl
    · rfl
  unfold Scan.read
  rw [hends, h]
  refine congrArg Except.ok ?_
  show (s'.begin c).advance c = _
  rw [hbegin, hmark, onto_advance]
  rfl

/-- What a punctuation character follows can be settled if what it leads to can. -/
theorem settles_before {s s₁ s₂ : Scan} (hsound : s.Sound) {c : Char} (hc : isPunctuationChar c = true)
    (hread : s.read c = .ok s₁) (h : s₁.settle = .ok s₂) : ∃ s', s.settle = .ok s' := by
  obtain ⟨-, -, hname, hquote, -, hescape⟩ := plain_of_punctuation hc
  cases hsettle : s.settle with
  | ok s' => exact ⟨s', rfl⟩
  | error e =>
    have hlexeme := hsound.lexeme
    unfold Scan.read at hread
    rw [hsettle] at hread
    unfold extend? at hread
    unfold settle at hsettle
    cases hs : s.lexeme with
    | none | colon | digits | point | fraction => simp only [hs, reduceCtorEq] at hsettle
    | name chars =>
      simp only [hs, hname, Bool.false_eq_true, if_false] at hread
      cases hread
    | quoted quote start chars =>
      rw [hs] at hlexeme
      have hne : c ≠ quote := by
        rintro rfl
        rw [hlexeme.1] at hquote
        cases hquote
      simp only [hs, if_neg hescape, if_neg hne] at hread
      cases hread
      cases h
    | escaped quote start chars =>
      simp only [hs] at hread
      cases hread
      cases h

end Scan

end UriRouting

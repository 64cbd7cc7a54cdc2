import Mathlib.Data.List.Basic
import UriRouting.Template.Lexer
/-!
What the lexer makes of a template.

`Nesting` counts the parentheses along a row of tokens as the lexer does. Every token is spelled as
its kind asks, and quoted strings stand only inside the parentheses that follow a variable:
`lex_spelled`.
-/

namespace UriRouting

open Numeric Text

/-! ## Folds that can fail -/

theorem except_bind_ok {ε α β : Type} {x : Except ε α} {f : α → Except ε β} {b : β}
    (h : x >>= f = .ok b) : ∃ a, x = .ok a ∧ f a = .ok b := by
  cases x with
  | error e => cases h
  | ok a => exact ⟨a, rfl, h⟩

theorem foldlM_keeps {α β ε : Type} {f : β → α → Except ε β} {P : β → Prop} {as : List α} {b b' : β}
    (h : P b) (step : ∀ a ∈ as, ∀ b b', P b → f b a = .ok b' → P b') (hfold : as.foldlM f b = .ok b') :
    P b' := by
  induction as generalizing b with
  | nil =>
    cases hfold
    exact h
  | cons a as ih =>
    rw [List.foldlM_cons] at hfold
    obtain ⟨b₁, hb₁, hfold⟩ := except_bind_ok hfold
    exact ih (step a List.mem_cons_self b b₁ h hb₁) (fun a ha => step a (List.mem_cons_of_mem _ ha)) hfold

/-! ## Nesting -/

/-- Where a row of tokens has led: how deep into parentheses, and whether right behind a variable. -/
structure Nesting where
  depth : Nat := 0
  behindVar : Bool := false

def Nesting.step (n : Nesting) (t : Token) : Nesting where
  depth :=
    if t.isPunctuation "(" && (0 < n.depth || n.behindVar) then n.depth + 1
    else if t.isPunctuation ")" then n.depth - 1
    else n.depth
  behindVar := t.kind = .var

def nest (n : Nesting) (tokens : List Token) : Nesting := tokens.foldl Nesting.step n

theorem Nesting.step_depth {n : Nesting} {t : Token} (h : t.kind ≠ .punctuation) :
    (n.step t).depth = n.depth := by
  have hmark : ∀ mark, t.isPunctuation mark = false := by
    intro mark
    rw [Token.isPunctuation, Token.is, decide_eq_false h, Bool.false_and]
  rw [step, hmark, hmark]
  rfl

theorem nest_concat (n : Nesting) (tokens : List Token) (t : Token) :
    nest n (tokens ++ [t]) = (nest n tokens).step t := by
  rw [nest, List.foldl_append]
  rfl

/-! ## Spelling -/

def IsDigits (cs : List Char) : Prop := cs ≠ [] ∧ ∀ c ∈ cs, isDigit c = true

theorem IsDigits.reverse {cs : List Char} (h : IsDigits cs) : IsDigits cs.reverse :=
  ⟨fun hnil => h.1 (List.reverse_eq_nil_iff.mp hnil), fun c hc => h.2 c (List.mem_reverse.mp hc)⟩

theorem IsDigits.cons {c : Char} {cs : List Char} (hc : isDigit c = true)
    (h : ∀ c ∈ cs, isDigit c = true) : IsDigits (c :: cs) := by
  refine ⟨List.cons_ne_nil c cs, fun d hd => ?_⟩
  rcases List.mem_cons.mp hd with rfl | hd
  · exact hc
  · exact h d hd

/-- A token is spelled as its kind asks. No token of the lexer is an end token. -/
inductive Token.Spelled (n : Nesting) : Token → Prop
  | text {cs : List Char} (hne : cs ≠ []) (h : ∀ c ∈ cs, isPunctuationChar c = false) :
    Spelled n ⟨.text, String.ofList cs⟩
  | digits {cs : List Char} (h : IsDigits cs) : Spelled n ⟨.number, String.ofList cs⟩
  | fraction {whole cs : List Char} (hwhole : IsDigits whole) (h : IsDigits cs) :
    Spelled n ⟨.number, String.ofList (whole ++ '.' :: cs)⟩
  | punctuation {c : Char} (h : isPunctuationChar c = true) :
    Spelled n ⟨.punctuation, String.ofList [c]⟩
  | quotedString (value : String) (h : 0 < n.depth) : Spelled n ⟨.quotedString, value⟩
  | var (name : String) : Spelled n ⟨.var, name⟩

/-- Every token of a row is spelled as its kind asks. -/
inductive Spelled : Nesting → List Token → Prop
  | nil (n : Nesting) : Spelled n []
  | cons {n : Nesting} {t : Token} {rest : List Token} (h : t.Spelled n)
    (hrest : Spelled (n.step t) rest) : Spelled n (t :: rest)

theorem spelled_append {n : Nesting} {front back : List Token} :
    Spelled n (front ++ back) ↔ Spelled n front ∧ Spelled (nest n front) back := by
  induction front generalizing n with
  | nil => exact ⟨fun h => ⟨.nil n, h⟩, fun h => h.2⟩
  | cons t front ih =>
    constructor
    · intro h
      cases h with
      | cons ht h => exact ⟨.cons ht (ih.mp h).1, (ih.mp h).2⟩
    · intro h
      obtain ⟨hfront, hback⟩ := h
      cases hfront with
      | cons ht hfront => exact .cons ht (ih.mpr ⟨hfront, hback⟩)

theorem Spelled.kind_ne_eof {n : Nesting} {tokens : List Token} (h : Spelled n tokens) :
    ∀ t ∈ tokens, t.kind ≠ .eof := by
  induction h with
  | nil n => exact fun t ht => (List.not_mem_nil ht).elim
  | cons h hrest ih =>
    intro t ht
    rcases List.mem_cons.mp ht with rfl | ht
    · cases h <;> exact fun heof => nomatch heof
    · exact ih t ht

/-! ## The scan -/

def Lexeme.Sound (depth : Nat) : Lexeme → Prop
  | .none | .colon | .name _ => True
  | .digits chars | .point chars => IsDigits chars
  | .fraction chars => ∃ whole cs, IsDigits whole ∧ IsDigits cs ∧ chars = cs ++ '.' :: whole
  | .quoted quote .. | .escaped quote .. => isQuote quote = true ∧ 0 < depth

namespace Scan

/-- The tokens in order. -/
def done (s : Scan) : List Token := s.tokens.reverse

structure Sound (s : Scan) : Prop where
  tokens : Spelled {} s.done
  depth : s.depth = (nest {} s.done).depth
  text : ∀ c ∈ s.text, isPunctuationChar c = false
  lexeme : s.lexeme.Sound s.depth

theorem sound_start : Sound {} :=
  ⟨.nil _, rfl, fun _ hc => (List.not_mem_nil hc).elim, trivial⟩

/-- Flushing keeps the depth and leaves no text. -/
theorem Sound.flush {s : Scan} (h : s.Sound) :
    Spelled {} s.flush.done ∧ (nest {} s.flush.done).depth = s.depth ∧
      (nest {} s.flush.done).behindVar = s.followsVariable := by
  unfold Scan.flush followsVariable
  split
  · next hnil =>
    refine ⟨h.tokens, h.depth.symm, ?_⟩
    rw [hnil]
    cases htokens : s.tokens with
    | nil => simp [done, htokens, nest]
    | cons t rest => simp [done, htokens, nest_concat, Nesting.step]
  · next hne =>
    rw [done, List.reverse_cons, nest_concat, Nesting.step_depth (by simp)]
    refine ⟨spelled_append.mpr ⟨h.tokens, .cons (.text ?_ fun c hc => ?_) (.nil _)⟩, h.depth.symm, ?_⟩
    · simpa using hne
    · exact h.text c (List.mem_reverse.mp hc)
    · simp [hne, Nesting.step]

theorem emit_done (s : Scan) (kind : TokenKind) (chars : List Char) :
    (s.emit kind chars).done = s.flush.done ++ [⟨kind, String.ofList chars.reverse⟩] :=
  List.reverse_cons

theorem emit_depth (s : Scan) (kind : TokenKind) (chars : List Char) :
    (s.emit kind chars).depth = s.depth := by
  unfold emit flush
  split <;> rfl

theorem emit_text (s : Scan) (kind : TokenKind) (chars : List Char) :
    (s.emit kind chars).text = [] := by
  unfold emit flush
  dsimp only
  split
  · next hnil => exact hnil
  · rfl

theorem Sound.emit {s : Scan} (h : s.Sound) {kind : TokenKind} {chars : List Char}
    (hkind : kind ≠ .punctuation)
    (ht : Token.Spelled (nest {} s.flush.done) ⟨kind, String.ofList chars.reverse⟩) :
    (s.emit kind chars).Sound := by
  obtain ⟨htokens, hdepth, -⟩ := h.flush
  refine ⟨?_, ?_, ?_, trivial⟩
  · rw [emit_done]
    exact spelled_append.mpr ⟨htokens, .cons ht (.nil _)⟩
  · rw [emit_done, nest_concat, Nesting.step_depth hkind, hdepth, emit_depth]
  · rw [emit_text]
    exact fun c hc => (List.not_mem_nil hc).elim

theorem isPunctuation_single (c mark : Char) :
    Token.isPunctuation ⟨.punctuation, String.ofList [c]⟩ (String.ofList [mark]) = decide (c = mark) := by
  simp [Token.isPunctuation, Token.is]

/-- The lexer counts parentheses as `Nesting` does. -/
theorem Sound.depthAfter {s : Scan} (h : s.Sound) (c : Char) :
    ((nest {} s.flush.done).step ⟨.punctuation, String.ofList [c]⟩).depth = s.depthAfter c := by
  obtain ⟨-, hdepth, hbehind⟩ := h.flush
  have hopen := isPunctuation_single c '('
  have hclose := isPunctuation_single c ')'
  simp only [Nesting.step, Scan.depthAfter, hdepth, hbehind]
  rw [show Token.isPunctuation ⟨.punctuation, String.ofList [c]⟩ "(" = _ from hopen,
    show Token.isPunctuation ⟨.punctuation, String.ofList [c]⟩ ")" = _ from hclose]
  simp only [decide_eq_true_eq]

theorem Sound.emitPunctuation {s : Scan} (h : s.Sound) {c : Char}
    (hc : isPunctuationChar c = true) : (s.emitPunctuation c).Sound := by
  obtain ⟨htokens, -, -⟩ := h.flush
  have hdone : (s.emitPunctuation c).done
      = s.flush.done ++ [⟨.punctuation, String.ofList [c]⟩] := s.emit_done .punctuation [c]
  refine ⟨?_, ?_, ?_, trivial⟩
  · rw [hdone]
    exact spelled_append.mpr ⟨htokens, .cons (.punctuation hc) (.nil _)⟩
  · rw [hdone, nest_concat, h.depthAfter]
    rfl
  · rw [show (s.emitPunctuation c).text = [] from s.emit_text .punctuation [c]]
    exact fun c hc => (List.not_mem_nil hc).elim

theorem Sound.begin {s : Scan} (h : s.Sound) (hlexeme : s.lexeme = .none) (c : Char) :
    (s.begin c).Sound := by
  unfold Scan.begin
  split
  · exact h
  · split
    · next hc => exact h.emitPunctuation hc
    · next hc =>
      split
      · exact ⟨h.tokens, h.depth, h.text, trivial⟩
      · split
        · next hquote =>
          rw [Bool.and_eq_true, decide_eq_true_eq] at hquote
          exact ⟨h.tokens, h.depth, h.text, hquote⟩
        · split
          · next hdigit =>
            rw [Bool.and_eq_true] at hdigit
            exact ⟨h.tokens, h.depth, h.text,
              IsDigits.cons hdigit.1 fun _ hd => (List.not_mem_nil hd).elim⟩
          · refine ⟨h.tokens, h.depth, fun d hd => ?_, by rw [hlexeme]; trivial⟩
            rcases List.mem_cons.mp hd with rfl | hd
            · simpa using hc
            · exact h.text d hd

theorem Sound.settle {s s' : Scan} (h : s.Sound) (hs : s.settle = .ok s') :
    s'.Sound ∧ s'.lexeme = .none := by
  have hlex := h.lexeme
  unfold Scan.settle at hs
  split at hs
  · next hnone =>
    cases hs
    exact ⟨h, hnone⟩
  · cases hs
    refine ⟨⟨h.tokens, h.depth, fun d hd => ?_, trivial⟩, rfl⟩
    rcases List.mem_cons.mp hd with rfl | hd
    · decide
    · exact h.text d hd
  · split at hs
    · cases hs
    · cases hs
      exact ⟨h.emit (by simp) (.var _), rfl⟩
  · next chars hdigits =>
    rw [hdigits] at hlex
    cases hs
    exact ⟨h.emit (by simp) (.digits (IsDigits.reverse hlex)), rfl⟩
  · next chars hfraction =>
    rw [hfraction] at hlex
    obtain ⟨whole, cs, hwhole, hcs, rfl⟩ := hlex
    cases hs
    refine ⟨h.emit (by simp) ?_, rfl⟩
    rw [show (cs ++ '.' :: whole).reverse = whole.reverse ++ '.' :: cs.reverse by simp]
    exact .fraction (IsDigits.reverse hwhole) (IsDigits.reverse hcs)
  · next chars hpoint =>
    rw [hpoint] at hlex
    cases hs
    exact ⟨(h.emit (by simp) (.digits (IsDigits.reverse hlex))).emitPunctuation (by decide), rfl⟩
  · cases hs
  · cases hs

theorem Sound.extend {s s' : Scan} (h : s.Sound) {c : Char} (hs : s.extend? c = some s') :
    s'.Sound := by
  have hlex := h.lexeme
  unfold extend? at hs
  split at hs
  · cases hs
  · split at hs
    · cases hs
      exact ⟨h.tokens, h.depth, h.text, trivial⟩
    · cases hs
  · split at hs
    · cases hs
      exact ⟨h.tokens, h.depth, h.text, trivial⟩
    · cases hs
  · next chars hdigits =>
    rw [hdigits] at hlex
    split at hs
    · next hc =>
      cases hs
      exact ⟨h.tokens, h.depth, h.text, IsDigits.cons hc hlex.2⟩
    · split at hs
      · cases hs
        exact ⟨h.tokens, h.depth, h.text, hlex⟩
      · cases hs
  · next chars hpoint =>
    rw [hpoint] at hlex
    split at hs
    · next hc =>
      cases hs
      exact ⟨h.tokens, h.depth, h.text, chars, [c], hlex,
        IsDigits.cons hc fun _ hd => (List.not_mem_nil hd).elim, rfl⟩
    · cases hs
  · next chars hfraction =>
    rw [hfraction] at hlex
    obtain ⟨whole, cs, hwhole, hcs, rfl⟩ := hlex
    split at hs
    · next hc =>
      cases hs
      exact ⟨h.tokens, h.depth, h.text, whole, c :: cs, hwhole, IsDigits.cons hc hcs.2, rfl⟩
    · cases hs
  · next quote start chars hquoted =>
    rw [hquoted] at hlex
    split at hs
    · cases hs
      exact ⟨h.tokens, h.depth, h.text, hlex⟩
    · split at hs
      · cases hs
        refine h.emit (by simp) (.quotedString _ ?_)
        rw [h.flush.2.1]
        exact hlex.2
      · cases hs
        exact ⟨h.tokens, h.depth, h.text, hlex⟩
  · next quote start chars hescaped =>
    rw [hescaped] at hlex
    cases hs
    exact ⟨h.tokens, h.depth, h.text, hlex⟩

theorem Sound.read {s s' : Scan} (h : s.Sound) {c : Char} (hs : s.read c = .ok s') : s'.Sound := by
  have hadvance : ∀ {s : Scan}, s.Sound → (s.advance c).Sound := fun h =>
    ⟨h.tokens, h.depth, h.text, h.lexeme⟩
  unfold Scan.read at hs
  cases hextend : s.extend? c with
  | some s₁ =>
    rw [hextend] at hs
    cases hs
    exact hadvance (h.extend hextend)
  | none =>
    rw [hextend] at hs
    cases hsettle : s.settle with
    | error e =>
      rw [hsettle] at hs
      cases hs
    | ok s₁ =>
      rw [hsettle] at hs
      cases hs
      obtain ⟨h₁, hlexeme⟩ := h.settle hsettle
      exact hadvance (h₁.begin hlexeme c)

theorem Sound.run {s s' : Scan} (h : s.Sound) {cs : List Char}
    (hs : cs.foldlM Scan.read s = .ok s') : s'.Sound :=
  foldlM_keeps h (fun _ _ _ _ h hread => h.read hread) hs

end Scan

/-- The tokens of a template are spelled as their kinds ask. -/
theorem lex_spelled {template : String} {tokens : List Token} (h : lex template = .ok tokens) :
    Spelled {} tokens := by
  unfold lex at h
  cases hrun : template.toList.foldlM Scan.read {} with
  | error e =>
    rw [hrun] at h
    cases h
  | ok s =>
    rw [hrun] at h
    have hsound := Scan.sound_start.run hrun
    simp only [bind, Except.bind, Scan.finish] at h
    cases hsettle : s.settle with
    | error e =>
      rw [hsettle] at h
      cases h
    | ok s₁ =>
      rw [hsettle] at h
      cases h
      exact (hsound.settle hsettle).1.flush.1

end UriRouting

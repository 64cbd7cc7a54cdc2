import Mathlib.Data.List.TakeWhile
import UriRouting.Proofs.Template.Tokens
import UriRouting.Template.Parser
/-!
The texts of a template.

No text of a path is empty or holds a slash, and no text of a host is empty or holds a period, a slash
or a bracket: `ofString_texts`. The tokens alone do not say so, for a quoted string may hold anything;
but the parser takes quoted strings only as parameters, because it is inside the parentheses of a
variable exactly where the lexer was.
-/

namespace UriRouting

open Numeric Text

/-! ## Texts -/

namespace Part

variable {ν : Type}

mutual

def textsOfPart : Part ν → List String
  | .text s => [s]
  | .optional parts => texts parts
  | .delimiter | .var _ => []

/-- The texts among parts, those of optional parts included. -/
def texts : List (Part ν) → List String
  | [] => []
  | p :: rest => textsOfPart p ++ texts rest

end

theorem texts_append (front back : List (Part ν)) : texts (front ++ back) = texts front ++ texts back := by
  induction front with
  | nil => rfl
  | cons p front ih => rw [List.cons_append, texts, texts, ih, List.append_assoc]

theorem mem_texts_reverse {parts : List (Part ν)} {s : String} :
    s ∈ texts parts.reverse ↔ s ∈ texts parts := by
  induction parts with
  | nil => rfl
  | cons p parts ih =>
    rw [List.reverse_cons, texts_append, List.mem_append, ih, texts, List.mem_append, or_comm]
    simp [texts]

end Part

open UriRouting.Part (texts textsOfPart texts_append mem_texts_reverse)

namespace Side

/-- Characters that no text of a side holds. -/
def reserved : Side → List Char
  | host => ['.', '/', '[', ']']
  | path => ['/']

def IsText (side : Side) (s : String) : Prop := s ≠ "" ∧ ∀ c ∈ s.toList, c ∉ side.reserved

def AllTexts (side : Side) (parts : List (Part Slot)) : Prop := ∀ s ∈ texts parts, side.IsText s

theorem isPunctuationChar_of_reserved {side : Side} {c : Char} (h : c ∈ side.reserved) :
    isPunctuationChar c = true := by
  cases side with
  | host =>
    simp only [reserved, List.mem_cons, List.not_mem_nil, or_false] at h
    rcases h with rfl | rfl | rfl | rfl <;> decide
  | path =>
    rw [reserved, List.mem_singleton] at h
    subst h
    decide

theorem delimiter_mem_reserved (side : Side) : side.delimiter ∈ side.reserved := by
  cases side <;> decide

theorem isText_of_plain (side : Side) {cs : List Char} (hne : cs ≠ [])
    (h : ∀ c ∈ cs, isPunctuationChar c = false) : side.IsText (String.ofList cs) := by
  refine ⟨by simpa using hne, fun c hc hreserved => ?_⟩
  rw [String.toList_ofList] at hc
  have hplain := h c hc
  rw [isPunctuationChar_of_reserved hreserved] at hplain
  cases hplain

theorem isText_single {side : Side} {c : Char} (h : c ∉ side.reserved) :
    side.IsText (String.ofList [c]) := by
  refine ⟨by simp, fun d hd => ?_⟩
  rw [String.toList_ofList, List.mem_singleton] at hd
  exact hd ▸ h

end Side

theorem isPunctuationChar_of_digit {c : Char} (h : isDigit c = true) : isPunctuationChar c = false := by
  rw [← Bool.not_eq_true]
  intro hc
  simp only [isPunctuationChar, List.contains_eq_mem, List.mem_cons, List.not_mem_nil, or_false,
    decide_eq_true_eq] at hc
  rcases hc with rfl | rfl | rfl | rfl | rfl | rfl | rfl <;> revert h <;> decide

theorem IsDigits.isText {cs : List Char} (h : IsDigits cs) (side : Side) :
    side.IsText (String.ofList cs) :=
  side.isText_of_plain h.1 fun c hc => isPunctuationChar_of_digit (h.2 c hc)

/-! ## The builder -/

namespace Awaiting

/-- How deep in parentheses the next token is. -/
def depth : Awaiting → Nat
  | part | optionalSlash | rules _ => 0
  | rule .. | params .. | afterRule .. => 1
  | firstParam .. | nextParam .. | afterParam .. => 2

def behindVar : Awaiting → Bool
  | rules _ => true
  | _ => false

end Awaiting

namespace Builder

/-- The rows hold texts of the side only. -/
structure InOrder (side : Side) (b : Builder) : Prop where
  row : side.AllTexts b.row
  outer : ∀ row ∈ b.outer, side.AllTexts row

/-- The builder stands in the parentheses where the tokens have led. -/
structure Follows (n : Nesting) (b : Builder) : Prop where
  depth : n.depth = b.awaiting.depth
  behindVar : n.behindVar = b.awaiting.behindVar

theorem inOrder_start (side : Side) : InOrder side {} :=
  ⟨fun _ hs => (List.not_mem_nil hs).elim, fun _ hrow => (List.not_mem_nil hrow).elim⟩

theorem follows_start : Follows {} {} := ⟨rfl, rfl⟩

theorem InOrder.push {side : Side} {b : Builder} (h : b.InOrder side) {p : Part Slot}
    (hp : ∀ s ∈ textsOfPart p, side.IsText s) : (b.push p).InOrder side := by
  refine ⟨fun s hs => ?_, h.outer⟩
  rcases List.mem_append.mp hs with hs | hs
  · exact hp s hs
  · exact h.row s hs

theorem InOrder.pushText {side : Side} {b : Builder} (h : b.InOrder side) {s : String}
    (hs : side.IsText s) : (b.push (.text s)).InOrder side := by
  refine h.push fun s' hs' => ?_
  rw [textsOfPart, List.mem_singleton] at hs'
  exact hs' ▸ hs

theorem InOrder.prepend {side : Side} {b : Builder} (h : b.InOrder side) {parts : List (Part Slot)}
    (hparts : side.AllTexts parts) :
    InOrder side { b with row := parts.reverse ++ b.row, awaiting := .part } := by
  refine ⟨fun s hs => ?_, h.outer⟩
  rw [texts_append] at hs
  rcases List.mem_append.mp hs with hs | hs
  · exact hparts s (mem_texts_reverse.mp hs)
  · exact h.row s hs

theorem InOrder.openOptional {side : Side} {b : Builder} (h : b.InOrder side) :
    b.openOptional.InOrder side := by
  refine ⟨fun s hs => (List.not_mem_nil hs).elim, fun row hrow => ?_⟩
  rcases List.mem_cons.mp hrow with rfl | hrow
  · exact h.row
  · exact h.outer row hrow

/-- Closing an optional part. -/
theorem InOrder.closed {side : Side} {b : Builder} (h : b.InOrder side) {row : List (Part Slot)}
    {outer : List (List (Part Slot))} (houter : b.outer = row :: outer) :
    InOrder side ⟨.optional b.row.reverse :: row, outer, .part⟩ := by
  have hrows := h.outer
  rw [houter] at hrows
  refine ⟨fun s hs => ?_, fun row' hrow' => hrows row' (List.mem_cons_of_mem row hrow')⟩
  rcases List.mem_append.mp hs with hs | hs
  · exact h.row s (mem_texts_reverse.mp hs)
  · exact hrows row List.mem_cons_self s hs

theorem texts_intersperse (pieces : List (List Char)) :
    texts ((pieces.map fun piece => Part.text (ν := Slot) (String.ofList piece)).intersperse .delimiter)
      = pieces.map String.ofList := by
  induction pieces with
  | nil => rfl
  | cons piece rest ih =>
    cases rest with
    | nil => rfl
    | cons next rest => exact congrArg (String.ofList piece :: ·) ih

theorem labelParts_digits {cs : List Char} (h : IsDigits cs) :
    Side.host.AllTexts (labelParts (String.ofList cs)) := by
  intro s hs
  have hpoint : '.' ∉ cs := fun hmem => by cases h.2 '.' hmem
  rw [labelParts, texts_intersperse, String.toList_ofList, splitAt_of_not_mem hpoint] at hs
  rw [List.mem_singleton.mp hs]
  exact h.isText .host

theorem labelParts_fraction {whole cs : List Char} (hwhole : IsDigits whole) (h : IsDigits cs) :
    Side.host.AllTexts (labelParts (String.ofList (whole ++ '.' :: cs))) := by
  intro s hs
  have hpoint : ∀ {cs : List Char}, IsDigits cs → '.' ∉ cs := fun h hmem => by cases h.2 '.' hmem
  rw [labelParts, texts_intersperse, String.toList_ofList, splitAt_append_cons,
    splitAt_of_not_mem (hpoint hwhole), splitAt_of_not_mem (hpoint h)] at hs
  simp only [List.cons_append, List.nil_append, List.map_cons, List.map_nil, List.mem_cons,
    List.not_mem_nil, or_false] at hs
  rcases hs with rfl | rfl
  · exact hwhole.isText .host
  · exact h.isText .host

/-! ### Parts -/

/-- What is known of a builder behind a part that it has read from a token. -/
structure AfterPart (side : Side) (t : Token) (b : Builder) : Prop where
  inOrder : b.InOrder side
  depth : b.awaiting.depth = 0
  behindVar : b.awaiting.behindVar = decide (t.kind = .var)

theorem InOrder.readPathMark {b : Builder} (h : b.InOrder .path) (c : Char) :
    AfterPart .path ⟨.punctuation, String.ofList [c]⟩
      (b.readPathMark ⟨.punctuation, String.ofList [c]⟩) := by
  unfold Builder.readPathMark
  dsimp only
  split
  · exact ⟨h.push fun s hs => (List.not_mem_nil hs).elim, rfl, rfl⟩
  · next hslash =>
    have htext : Side.path.IsText (String.ofList [c]) := by
      refine Side.isText_single fun hc => hslash ?_
      rw [List.mem_singleton.mp hc]
    split
    · exact ⟨⟨h.row, h.outer⟩, rfl, rfl⟩
    · split
      · split
        · exact ⟨h.pushText htext, rfl, rfl⟩
        · next houter => exact ⟨h.closed houter, rfl, rfl⟩
      · exact ⟨h.pushText htext, rfl, rfl⟩

theorem InOrder.readHostMark {b b' : Builder} (h : b.InOrder .host) {c : Char} (hslash : c ≠ '/')
    (hread : b.readHostMark ⟨.punctuation, String.ofList [c]⟩ = .ok b') :
    AfterPart .host ⟨.punctuation, String.ofList [c]⟩ b' := by
  unfold Builder.readHostMark at hread
  dsimp only at hread
  split at hread
  · cases hread
    exact ⟨h.push fun s hs => (List.not_mem_nil hs).elim, rfl, rfl⟩
  · next hpoint =>
    split at hread
    · cases hread
      exact ⟨h.openOptional, rfl, rfl⟩
    · next hopen =>
      split at hread
      · split at hread
        · cases hread
        · next houter =>
          split at hread
          · cases hread
            exact ⟨h.closed houter, rfl, rfl⟩
          · cases hread
      · next hclose =>
        cases hread
        refine ⟨h.pushText (Side.isText_single fun hc => ?_), rfl, rfl⟩
        simp only [Side.reserved, List.mem_cons, List.not_mem_nil, or_false] at hc
        rcases hc with rfl | rfl | rfl | rfl
        · exact hpoint rfl
        · exact hslash rfl
        · exact hopen rfl
        · exact hclose rfl

theorem InOrder.readPart {side : Side} {n : Nesting} {b b' : Builder} (h : b.InOrder side) {t : Token}
    (ht : t.Spelled n) (hdepth : n.depth = 0) (hslash : side = .host → t.isPunctuation "/" = false)
    (hread : b.readPart side t = .ok b') : AfterPart side t b' := by
  cases ht with
  | text hne hplain =>
    cases side <;> cases hread <;> exact ⟨h.pushText (Side.isText_of_plain _ hne hplain), rfl, rfl⟩
  | digits hdigits =>
    cases side with
    | path =>
      cases hread
      exact ⟨h.pushText (hdigits.isText .path), rfl, rfl⟩
    | host =>
      cases hread
      exact ⟨h.prepend (labelParts_digits hdigits), rfl, rfl⟩
  | fraction hwhole hdigits =>
    cases side with
    | path =>
      cases hread
      refine ⟨h.pushText ⟨by simp, fun c hc hslash => ?_⟩, rfl, rfl⟩
      rw [List.mem_singleton.mp hslash, String.toList_ofList] at hc
      rcases List.mem_append.mp hc with hc | hc
      · cases hwhole.2 _ hc
      · rcases List.mem_cons.mp hc with hc | hc
        · cases hc
        · cases hdigits.2 _ hc
    | host =>
      cases hread
      exact ⟨h.prepend (labelParts_fraction hwhole hdigits), rfl, rfl⟩
  | @punctuation c hc =>
    cases side with
    | path =>
      cases hread
      exact h.readPathMark c
    | host =>
      refine h.readHostMark (fun hc => ?_) hread
      subst hc
      cases hslash rfl
  | quotedString value hinside => omega
  | var name =>
    have hvar : b.row.head?.any Part.isVar = false ∧ b' = { b with awaiting := .rules name } := by
      unfold Builder.readPart at hread
      dsimp only at hread
      split at hread
      · cases hread
      · next hne =>
        cases hread
        exact ⟨by simpa using hne, rfl⟩
    rw [hvar.2]
    exact ⟨⟨h.row, h.outer⟩, rfl, rfl⟩

/-! ### Tokens -/

theorem isPunctuation_eq {t : Token} {mark : String} (h : t.isPunctuation mark = true) (mark' : String) :
    t.isPunctuation mark' = decide (mark = mark') := by
  simp only [Token.isPunctuation, Token.is, Option.all_some, Bool.and_eq_true, decide_eq_true_eq] at h
  rw [Token.isPunctuation, Token.is, h.1, Option.all_some, h.2]
  rfl

theorem kind_of_isPunctuation {t : Token} {mark : String} (h : t.isPunctuation mark = true) :
    t.kind = .punctuation := by
  simp only [Token.isPunctuation, Token.is, Bool.and_eq_true, decide_eq_true_eq] at h
  exact h.1

/-- A mark that is no parenthesis behind a variable. -/
theorem follows_mark {n : Nesting} {b : Builder} {t : Token} {mark : String}
    (ht : t.isPunctuation mark = true) (hbehind : b.awaiting.behindVar = false)
    (hdepth : b.awaiting.depth =
      if mark = "(" ∧ (0 < n.depth ∨ n.behindVar = true) then n.depth + 1
      else if mark = ")" then n.depth - 1 else n.depth) : Follows (n.step t) b := by
  refine ⟨?_, ?_⟩
  · rw [hdepth, Nesting.step, isPunctuation_eq ht, isPunctuation_eq ht]
    simp only [Bool.and_eq_true, Bool.or_eq_true, decide_eq_true_eq]
  · rw [hbehind, Nesting.step, kind_of_isPunctuation ht]
    rfl

theorem AfterPart.follows {side : Side} {n : Nesting} {t : Token} {b : Builder}
    (h : AfterPart side t b) (hdepth : n.depth = 0)
    (hopen : t.isPunctuation "(" = true → n.behindVar = false) : Follows (n.step t) b := by
  refine ⟨?_, h.behindVar.symm⟩
  rw [h.depth, Nesting.step, hdepth]
  cases hmark : t.isPunctuation "(" with
  | false => simp
  | true => simp [hopen hmark]

theorem readParam_follows {side : Side} {n : Nesting} {b b' : Builder} {name call : String}
    {rules : List RuleCall} {params : List Param} {t : Token} (h : b.InOrder side) (hdepth : n.depth = 2)
    (hread : b.readParam name rules call params t = .ok b') :
    b'.InOrder side ∧ Follows (n.step t) b' := by
  unfold Builder.readParam at hread
  split at hread
  · next p hp =>
    cases hread
    have hkind : t.kind ≠ .punctuation ∧ t.kind ≠ .var := by
      unfold paramOf? at hp
      split at hp
      · next hkind => simp [hkind]
      · next hkind => simp [hkind]
      · next hkind => simp [hkind]
      · cases hp
    refine ⟨⟨h.row, h.outer⟩, ?_, ?_⟩
    · rw [Nesting.step_depth hkind.1, hdepth]
      rfl
    · exact decide_eq_false hkind.2
  · cases hread

theorem readAfterRule_follows {side : Side} {n : Nesting} {b b' : Builder} {name : String}
    {rules : List RuleCall} {t : Token} (h : b.InOrder side) (hdepth : n.depth = 1)
    (hread : b.readAfterRule name rules t = .ok b') : b'.InOrder side ∧ Follows (n.step t) b' := by
  unfold Builder.readAfterRule at hread
  split at hread
  · next hcomma =>
    cases hread
    exact ⟨⟨h.row, h.outer⟩, follows_mark hcomma rfl (by simp [hdepth, Awaiting.depth])⟩
  · split at hread
    · next hclose =>
      cases hread
      exact ⟨h.push fun s hs => (List.not_mem_nil hs).elim,
        follows_mark hclose rfl (by rw [if_neg (by simp), if_pos rfl, hdepth]; rfl)⟩
    · cases hread

/-- One token: the texts stay in order, and the builder stays where the tokens have led. -/
theorem InOrder.read {side : Side} {n : Nesting} {b b' : Builder} {t : Token} (h : b.InOrder side)
    (hfollows : b.Follows n) (ht : t.Spelled n)
    (hslash : side = .host → t.isPunctuation "/" = false) (hread : b.read side t = .ok b') :
    b'.InOrder side ∧ b'.Follows (n.step t) := by
  obtain ⟨hdepth, hbehind⟩ := hfollows
  unfold Builder.read at hread
  split at hread
  · next hawaiting =>
    rw [hawaiting] at hdepth hbehind
    have hpart := h.readPart ht hdepth hslash hread
    exact ⟨hpart.inOrder, hpart.follows hdepth fun _ => hbehind⟩
  · next hawaiting =>
    rw [hawaiting] at hdepth
    split at hread
    · next hmark =>
      cases hread
      exact ⟨h.openOptional.push fun s hs => (List.not_mem_nil hs).elim,
        follows_mark hmark rfl (by rw [if_neg (by simp), if_neg (by simp), hdepth]; rfl)⟩
    · cases hread
  · next name hawaiting =>
    rw [hawaiting] at hdepth hbehind
    split at hread
    · next hopen =>
      cases hread
      exact ⟨⟨h.row, h.outer⟩, follows_mark hopen rfl (by simp [hdepth, hbehind, Awaiting.depth,
        Awaiting.behindVar])⟩
    · next hopen =>
      have hslot : (b.pushSlot name []).InOrder side := h.push fun s hs => (List.not_mem_nil hs).elim
      have hpart := hslot.readPart ht hdepth hslash hread
      exact ⟨hpart.inOrder, hpart.follows hdepth fun hmark => absurd hmark hopen⟩
  · next hawaiting =>
    rw [hawaiting] at hdepth
    split at hread
    · next hkind =>
      cases hread
      refine ⟨⟨h.row, h.outer⟩, ?_, ?_⟩
      · rw [Nesting.step_depth (by simp [hkind]), hdepth]
        rfl
      · rw [Nesting.step, hkind]
        rfl
    · cases hread
  · next hawaiting =>
    rw [hawaiting] at hdepth
    split at hread
    · next hopen =>
      cases hread
      exact ⟨⟨h.row, h.outer⟩, follows_mark hopen rfl (by simp [hdepth, Awaiting.depth])⟩
    · exact readAfterRule_follows h hdepth hread
  · next hawaiting =>
    rw [hawaiting] at hdepth
    split at hread
    · next hclose =>
      cases hread
      exact ⟨⟨h.row, h.outer⟩, follows_mark hclose rfl (by simp [hdepth, Awaiting.depth])⟩
    · exact readParam_follows h hdepth hread
  · next hawaiting =>
    rw [hawaiting] at hdepth
    exact readParam_follows h hdepth hread
  · next hawaiting =>
    rw [hawaiting] at hdepth
    split at hread
    · next hcomma =>
      cases hread
      exact ⟨⟨h.row, h.outer⟩, follows_mark hcomma rfl (by simp [hdepth, Awaiting.depth])⟩
    · split at hread
      · next hclose =>
        cases hread
        exact ⟨⟨h.row, h.outer⟩, follows_mark hclose rfl (by simp [hdepth, Awaiting.depth])⟩
      · cases hread
  · next hawaiting =>
    rw [hawaiting] at hdepth
    exact readAfterRule_follows h hdepth hread

theorem InOrder.run {side : Side} {n : Nesting} {b b' : Builder} {tokens : List Token}
    (h : b.InOrder side) (hfollows : b.Follows n) (hspelled : Spelled n tokens)
    (hslash : side = .host → ∀ t ∈ tokens, t.isPunctuation "/" = false)
    (hrun : tokens.foldlM (Builder.read side) b = .ok b') :
    b'.InOrder side ∧ b'.Follows (nest n tokens) := by
  induction tokens generalizing n b with
  | nil =>
    cases hrun
    exact ⟨h, hfollows⟩
  | cons t tokens ih =>
    rw [List.foldlM_cons] at hrun
    cases hread : b.read side t with
    | error e =>
      rw [hread] at hrun
      cases hrun
    | ok b₁ =>
      rw [hread] at hrun
      cases hspelled with
      | cons ht hrest =>
        obtain ⟨h₁, hfollows₁⟩ := h.read hfollows ht (fun hhost => hslash hhost t List.mem_cons_self) hread
        exact ih h₁ hfollows₁ hrest (fun hhost t ht => hslash hhost t (List.mem_cons_of_mem _ ht)) hrun

theorem InOrder.close {side : Side} {b : Builder} (h : b.InOrder side) {stop : Token}
    {parts : List (Part Slot)} (hclose : b.close side stop = .ok parts) : side.AllTexts parts := by
  unfold Builder.close at hclose
  split at hclose
  · cases hclose
    exact fun s hs => h.row s (mem_texts_reverse.mp hs)
  · cases hclose

theorem InOrder.finish {side : Side} {b : Builder} (h : b.InOrder side) {stop : Token}
    {parts : List (Part Slot)} (hfinish : b.finish side stop = .ok parts) :
    side.AllTexts parts ∧ b.awaiting.depth = 0 := by
  unfold Builder.finish at hfinish
  split at hfinish
  · next hawaiting => exact ⟨h.close hfinish, by rw [hawaiting]; rfl⟩
  · cases hfinish
  · next name hawaiting =>
    have hslot : (b.pushSlot name []).InOrder side := h.push fun s hs => (List.not_mem_nil hs).elim
    exact ⟨hslot.close hfinish, by rw [hawaiting]; rfl⟩
  all_goals cases hfinish

end Builder

/-! ## Templates -/

theorem parseSide_texts {side : Side} {tokens : List Token} {stop : Token} {parts : List (Part Slot)}
    (hspelled : Spelled {} tokens) (hslash : side = .host → ∀ t ∈ tokens, t.isPunctuation "/" = false)
    (h : parseSide side tokens stop = .ok parts) :
    side.AllTexts parts ∧ (nest {} tokens).depth = 0 := by
  unfold parseSide at h
  cases hrun : tokens.foldlM (Builder.read side) {} with
  | error e =>
    rw [hrun] at h
    cases h
  | ok b =>
    rw [hrun] at h
    obtain ⟨horder, hfollows⟩ :=
      (Builder.inOrder_start side).run Builder.follows_start hspelled hslash hrun
    obtain ⟨htexts, hdepth⟩ := horder.finish h
    exact ⟨htexts, hfollows.depth.trans hdepth⟩

/-- Outside parentheses, a slash leads to where it would lead from the start. -/
theorem Nesting.step_slash {n : Nesting} (hdepth : n.depth = 0) {t : Token}
    (ht : t.isPunctuation "/" = true) : n.step t = Nesting.step {} t := by
  simp [Nesting.step, Builder.isPunctuation_eq ht, hdepth]

/-- Outside parentheses, tokens that begin with a slash are spelled as at the start. -/
theorem Spelled.restart {n : Nesting} {t : Token} {rest : List Token} (hdepth : n.depth = 0)
    (ht : t.isPunctuation "/" = true) (h : Spelled n (t :: rest)) : Spelled {} (t :: rest) := by
  cases h with
  | cons htoken hrest =>
    rw [Nesting.step_slash hdepth ht] at hrest
    refine .cons ?_ hrest
    cases htoken with
    | text hne h => exact .text hne h
    | digits h => exact .digits h
    | fraction hwhole h => exact .fraction hwhole h
    | punctuation h => exact .punctuation h
    | quotedString value h => omega
    | var name => exact .var name

/-- Closing a row of tokens leaves those before the first end token as they are. -/
theorem takeWhile_closed (tokens : List Token) :
    (TokenStream.closed tokens).takeWhile (·.kind ≠ .eof) = tokens.takeWhile (·.kind ≠ .eof) := by
  have hclosed : TokenStream.closed tokens = tokens ∨ TokenStream.closed tokens = tokens ++ [.eof] := by
    unfold TokenStream.closed
    cases hlast : tokens.getLast? with
    | none =>
      rw [List.getLast?_eq_none_iff.mp hlast]
      exact Or.inr rfl
    | some last =>
      dsimp only
      split
      · exact Or.inl rfl
      · exact Or.inr rfl
  rcases hclosed with hclosed | hclosed
  · rw [hclosed]
  · rw [hclosed, List.takeWhile_append]
    split
    · next hlength =>
      rw [(List.takeWhile_prefix _).eq_of_length hlength]
      simp [Token.eof]
    · rfl

def Template.TextsInOrder (t : Template) : Prop :=
  Side.path.AllTexts t.path ∧ ∀ host, t.host? = some host → Side.host.AllTexts host

/-- The tokens are all for the path, with brackets at most before the first slash, or the host has
those before the first slash. -/
theorem parse_cases {tokens : List Token} {t : Template} (hkinds : ∀ t ∈ tokens, t.kind ≠ .eof)
    (h : parse (TokenStream.closed tokens) = .ok t) :
    (t.host? = none ∧ (tokens.takeWhile (!·.isPunctuation "/")).all Token.isBracket = true ∧
      ∃ stop, parseSide .path tokens stop = .ok t.path) ∨
      ∃ host stop stop', t.host? = some host ∧
        parseSide .host (tokens.takeWhile (!·.isPunctuation "/")) stop = .ok host ∧
        parseSide .path (tokens.dropWhile (!·.isPunctuation "/")) stop' = .ok t.path := by
  unfold parse splitSides at h
  rw [takeWhile_closed, List.takeWhile_eq_self_iff.mpr fun t ht => decide_eq_true (hkinds t ht)] at h
  dsimp only at h
  split at h
  · next path hsplit =>
    split at hsplit
    · next hbrackets =>
      cases hsplit
      obtain ⟨parts, hparts, h⟩ := except_bind_ok h
      cases h
      exact Or.inl ⟨rfl, hbrackets, _, hparts⟩
    · cases hsplit
  · next host hsplit =>
    split at hsplit
    · cases hsplit
    · obtain ⟨hfront, hback⟩ := Prod.mk.inj hsplit
      cases hfront
      obtain ⟨parts, hparts, h⟩ := except_bind_ok h
      obtain ⟨path, hpath, h⟩ := except_bind_ok h
      cases h
      rw [hback]
      exact Or.inr ⟨parts, _, _, rfl, hparts, hpath⟩
  · next host path _ hsplit =>
    split at hsplit
    · cases hsplit
    · cases hsplit
      obtain ⟨parts, hparts, h⟩ := except_bind_ok h
      obtain ⟨path, hpath, h⟩ := except_bind_ok h
      cases h
      exact Or.inr ⟨parts, _, _, rfl, hparts, hpath⟩

theorem parse_texts {tokens : List Token} {t : Template} (hspelled : Spelled {} tokens)
    (h : parse (TokenStream.closed tokens) = .ok t) : t.TextsInOrder := by
  have hpath : Side.path = .host → ∀ tokens : List Token, ∀ t ∈ tokens, t.isPunctuation "/" = false := by
    intro hhost
    cases hhost
  rcases parse_cases hspelled.kind_ne_eof h with ⟨hnone, -, stop, h⟩ | ⟨host, stop, stop', hsome, h, h'⟩
  · refine ⟨(parseSide_texts hspelled (fun hhost => hpath hhost tokens) h).1, fun host hhost => ?_⟩
    rw [hnone] at hhost
    cases hhost
  · rw [← List.takeWhile_append_dropWhile (p := (!·.isPunctuation "/")) (l := tokens),
      spelled_append] at hspelled
    obtain ⟨hfront, hback⟩ := hspelled
    obtain ⟨htexts, hdepth⟩ := parseSide_texts hfront
      (fun _ t ht => by simpa using List.mem_takeWhile_imp ht) h
    refine ⟨?_, fun host' hhost => ?_⟩
    · cases hrest : tokens.dropWhile (!·.isPunctuation "/") with
      | nil =>
        rw [hrest] at h'
        rw [← Except.ok.inj h']
        exact fun s hs => (List.not_mem_nil hs).elim
      | cons t rest =>
        have hslash : t.isPunctuation "/" = true := by
          have hhead := List.head?_dropWhile_not (p := (!·.isPunctuation "/")) tokens
          rw [hrest] at hhead
          simpa using hhead
        rw [hrest] at h' hback
        exact (parseSide_texts (hback.restart hdepth hslash) (fun hhost => hpath hhost _) h').1
    · rw [hsome] at hhost
      cases hhost
      exact htexts

/-- A template is read from its tokens. -/
theorem ofString_ok {text : String} {t : Template} (h : Template.ofString text = .ok t) :
    ∃ tokens, lex text = .ok tokens ∧ parse (TokenStream.closed tokens) = .ok t := by
  unfold Template.ofString at h
  cases hlex : lex text with
  | error e =>
    rw [hlex] at h
    cases h
  | ok tokens =>
    rw [hlex] at h
    dsimp only at h
    cases hparse : parse (TokenStream.closed tokens) with
    | error e =>
      rw [hparse] at h
      cases h
    | ok t' =>
      rw [hparse] at h
      cases h
      exact ⟨tokens, rfl, hparse⟩

/-- No text of a template is empty or holds what would cut it. -/
theorem ofString_texts {text : String} {t : Template} (h : Template.ofString text = .ok t) :
    t.TextsInOrder := by
  obtain ⟨tokens, hlex, hparse⟩ := ofString_ok h
  exact parse_texts (lex_spelled hlex) hparse

end UriRouting

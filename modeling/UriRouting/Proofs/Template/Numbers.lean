import UriRouting.Proofs.Template.Runs
import UriRouting.Proofs.Template.Seams
/-!
Numbers in the text of a host.

A number takes at most one period, and which one depends on where the number begins: `1.2.3` is a number,
a period and a number. Behind `a.` and on its own the same text may thus have other tokens. It has the
same parts, for in a host the periods of numbers separate labels: scans that are `Alike` stay so, and the
tokens they end with are the same to a builder of a host.
-/

namespace UriRouting

open Numeric

/-! ## The builder of a host -/

namespace Builder

/-- The builder where another part or the end may come, behind a variable without rules if need be. -/
def ready? (b : Builder) : Option Builder :=
  match b.awaiting with
  | .part => some b
  | .rules name => some (b.pushSlot name [])
  | _ => none

theorem read_ready {side : Side} {b ready : Builder} (h : b.ready? = some ready) {t : Token}
    (ht : t.isPunctuation "(" = false) : b.read side t = ready.readPart side t := by
  unfold ready? at h
  unfold read
  split at h
  · next hawaiting =>
    cases h
    rw [hawaiting]
  · next name hawaiting =>
    cases h
    rw [hawaiting]
    simp only [ht, Bool.false_eq_true, if_false]
  · cases h

theorem finish_ok {side : Side} {b : Builder} {stop : Token} {parts : List (Part Slot)} :
    b.finish side stop = .ok parts ↔ b.ready? = some ⟨parts.reverse, [], .part⟩ := by
  obtain ⟨row, outer, awaiting⟩ := b
  unfold finish ready?
  cases awaiting <;> cases outer <;> simp [close, pushSlot, push, List.reverse_eq_iff, -List.reverse_cons]

end Builder

/-- The builder that has read tokens of a host. They are given newest first. -/
def hostBuilder (base : List Token) : Except UnexpectedToken Builder :=
  base.reverse.foldlM (Builder.read .host) {}

theorem hostBuilder_append (tokens base : List Token) : hostBuilder (tokens ++ base) = (do
    let b ← hostBuilder base
    tokens.reverse.foldlM (Builder.read .host) b) := by
  rw [hostBuilder, List.reverse_append, List.foldlM_append]
  rfl

theorem hostBuilder_cons (t : Token) (base : List Token) : hostBuilder (t :: base) = (do
    let b ← hostBuilder base
    b.read .host t) := by
  rw [← List.singleton_append, hostBuilder_append]
  simp only [List.reverse_singleton, List.foldlM_cons, List.foldlM_nil, bind_pure]

/-- Behind the tokens a part may come. -/
def Outside (base : List Token) : Prop := ∀ b, hostBuilder base = .ok b → b.ready? ≠ none

/-! ## Tokens of numbers -/

open Builder (labelParts)

/-- A number, given its characters newest first. -/
def numberToken (chars : List Char) : Token := ⟨.number, String.ofList chars.reverse⟩

def periodToken : Token := ⟨.punctuation, "."⟩

theorem labelParts_plain {chars : List Char} (h : '.' ∉ chars) :
    labelParts (numberToken chars).value = [.text (numberToken chars).value] := by
  have hcs : '.' ∉ chars.reverse := fun hc => h (List.mem_reverse.mp hc)
  rw [labelParts, numberToken, String.toList_ofList, Text.splitAt_of_not_mem hcs]
  rfl

theorem labelParts_period {chars whole : List Char} (h : '.' ∉ chars) (hwhole : '.' ∉ whole) :
    labelParts (numberToken (chars ++ '.' :: whole)).value
      = [.text (numberToken whole).value, .delimiter, .text (numberToken chars).value] := by
  have hreverse : (chars ++ '.' :: whole).reverse = whole.reverse ++ '.' :: chars.reverse := by simp
  rw [labelParts, numberToken, String.toList_ofList, hreverse, Text.splitAt_append_cons,
    Text.splitAt_of_not_mem fun hc => hwhole (List.mem_reverse.mp hc),
    Text.splitAt_of_not_mem fun hc => h (List.mem_reverse.mp hc)]
  rfl

theorem Builder.read_number {b ready : Builder} (h : b.ready? = some ready) (chars : List Char) :
    b.read .host (numberToken chars) = .ok
      { ready with
        row := (labelParts (numberToken chars).value).reverse ++ ready.row, awaiting := .part } :=
  read_ready h rfl

theorem Builder.read_period {b ready : Builder} (h : b.ready? = some ready) :
    b.read .host periodToken = .ok (ready.push .delimiter) :=
  read_ready h rfl

theorem Outside.number {base : List Token} (h : Outside base) (chars : List Char) :
    Outside (numberToken chars :: base) := by
  intro b hb
  rw [hostBuilder_cons] at hb
  obtain ⟨b₀, hb₀, hread⟩ := except_bind_ok hb
  obtain ⟨ready, hready⟩ := Option.ne_none_iff_exists'.mp (h b₀ hb₀)
  rw [Builder.read_number hready] at hread
  cases hread
  exact Option.some_ne_none _

theorem Outside.period {base : List Token} (h : Outside base) : Outside (periodToken :: base) := by
  intro b hb
  rw [hostBuilder_cons] at hb
  obtain ⟨b₀, hb₀, hread⟩ := except_bind_ok hb
  obtain ⟨ready, hready⟩ := Option.ne_none_iff_exists'.mp (h b₀ hb₀)
  rw [Builder.read_period hready] at hread
  cases hread
  exact Option.some_ne_none _

/-- A number with a period is to a host what the two numbers and the period are. -/
theorem hostBuilder_number {base : List Token} (hbase : Outside base) {chars whole : List Char}
    (h : '.' ∉ chars) (hwhole : '.' ∉ whole) :
    hostBuilder (numberToken (chars ++ '.' :: whole) :: base)
      = hostBuilder (numberToken chars :: periodToken :: numberToken whole :: base) := by
  simp only [hostBuilder_cons]
  cases hb : hostBuilder base with
  | error e => rfl
  | ok b =>
    obtain ⟨ready, hready⟩ := Option.ne_none_iff_exists'.mp (hbase b hb)
    simp only [bind, Except.bind, Builder.read_number hready, labelParts_period h hwhole,
      labelParts_plain hwhole]
    rw [Builder.read_period rfl]
    dsimp only
    rw [Builder.read_number rfl, labelParts_plain h]
    rfl

theorem Outside.congr {base base' : List Token} (h : hostBuilder base = hostBuilder base')
    (hbase : Outside base) : Outside base' := fun b hb => hbase b (h.trans hb)

/-! ## Scans -/

namespace Scan

/-- A scan outside parentheses behind finished tokens, which are given newest first. -/
def behind (offset : Nat) (base : List Token) : Scan := ⟨offset, 0, base, [], .none⟩

theorem behind_eq_onto (offset : Nat) (base : List Token) :
    behind offset base = (behind offset []).onto 0 base := rfl

theorem extended_flush (s : Scan) (lexeme : Lexeme) (c : Char) :
    ({ s with lexeme := lexeme }.advance c).flush.tokens = s.flush.tokens := by
  unfold flush advance
  dsimp only
  split <;> rfl

theorem emit_number {s : Scan} (hdepth : s.depth = 0) (chars : List Char) :
    s.emit .number chars = behind s.offset (numberToken chars :: s.flush.tokens) := by
  unfold emit flush behind
  dsimp only
  split
  · next hnil =>
    rw [hnil, hdepth]
    rfl
  · rw [hdepth]
    rfl

theorem settle_number {s : Scan} {chars : List Char}
    (h : s.lexeme = .digits chars ∨ s.lexeme = .fraction chars) (hdepth : s.depth = 0) :
    s.settle = .ok (behind s.offset (numberToken chars :: s.flush.tokens)) := by
  rw [← emit_number hdepth]
  unfold settle
  rcases h with h | h <;> rw [h]

theorem settle_point {s : Scan} {chars : List Char} (h : s.lexeme = .point chars)
    (hdepth : s.depth = 0) :
    s.settle = .ok (behind s.offset (periodToken :: numberToken chars :: s.flush.tokens)) := by
  unfold settle
  rw [h]
  dsimp only
  rw [emit_number hdepth]
  rfl

theorem begin_digit (offset : Nat) (base : List Token) {c : Char} (hc : isDigit c = true) :
    (behind offset base).begin c = { behind offset base with lexeme := .digits [c] } := by
  have hspace : c ≠ ' ' := by
    rintro rfl
    cases hc
  have hcolon : c ≠ ':' := by
    rintro rfl
    cases hc
  have hquote : (isQuote c && decide (0 < (behind offset base).depth)) = false := Bool.and_false _
  unfold begin
  rw [if_neg hspace, if_neg (by rw [isPunctuationChar_of_digit hc]; exact Bool.false_ne_true),
    if_neg hcolon, if_neg (by rw [hquote]; exact Bool.false_ne_true),
    if_pos (by rw [hc]; rfl)]

end Scan

/-- Scans of a host that read the same from here on, though a number in one of them may end in
the other. -/
inductive Alike : Scan → Scan → Prop
  | onto (s : Scan) {k : Nat} {base base' : List Token} (hbase : base.head?.any (·.kind = .var) = false)
    (hbase' : base'.head?.any (·.kind = .var) = false) (h : hostBuilder base = hostBuilder base') :
    Alike (s.onto k base) (s.onto k base')
  | point {s : Scan} {chars : List Char} {front base : List Token} (hlexeme : s.lexeme = .point chars)
    (hdepth : s.depth = 0) (hfront : s.flush.tokens = front) (hout : Outside front)
    (hchars : '.' ∉ chars) (hbase : base.head?.any (·.kind = .var) = false)
    (h : hostBuilder (periodToken :: numberToken chars :: front) = hostBuilder base) :
    Alike s (.behind s.offset base)
  | fraction {s : Scan} {chars whole : List Char} {front base : List Token}
    (hlexeme : s.lexeme = .fraction (chars ++ '.' :: whole)) (hdepth : s.depth = 0)
    (hfront : s.flush.tokens = front) (hout : Outside front) (hchars : '.' ∉ chars)
    (hwhole : '.' ∉ whole)
    (h : hostBuilder (periodToken :: numberToken whole :: front) = hostBuilder base) :
    Alike s { Scan.behind s.offset base with lexeme := .digits chars }
  | symm {s t : Scan} (h : Alike s t) : Alike t s

namespace Alike

open Scan

/-- A character after finished tokens. -/
theorem begin {offset : Nat} {base base' : List Token} (hbase : base.head?.any (·.kind = .var) = false)
    (hbase' : base'.head?.any (·.kind = .var) = false) (h : hostBuilder base = hostBuilder base')
    (c : Char) :
    Alike (((behind offset base).begin c).advance c) (((behind offset base').begin c).advance c) := by
  rw [behind_eq_onto, behind_eq_onto offset base', onto_begin hbase, onto_begin hbase', onto_advance,
    onto_advance]
  exact .onto _ hbase hbase' h

theorem period_not_mem_cons {c : Char} {chars : List Char} (hc : isDigit c = true)
    (hchars : '.' ∉ chars) : '.' ∉ c :: chars := by
  intro h
  rcases List.mem_cons.mp h with rfl | h
  · cases hc
  · exact hchars h

theorem read_point {s s' : Scan} {chars : List Char} (hlexeme : s.lexeme = .point chars)
    (hdepth : s.depth = 0) {c : Char} (hread : s.read c = .ok s') :
    s' = if isDigit c = true then { s with lexeme := .fraction (c :: '.' :: chars) }.advance c
      else ((behind s.offset (periodToken :: numberToken chars :: s.flush.tokens)).begin c).advance c := by
  unfold Scan.read extend? at hread
  rw [hlexeme, settle_point hlexeme hdepth] at hread
  split
  · next hc =>
    simp only [hc, if_true] at hread
    exact (Except.ok.inj hread).symm
  · next hc =>
    simp only [hc] at hread
    exact (Except.ok.inj hread).symm

theorem read_fraction {s s' : Scan} {chars : List Char} (hlexeme : s.lexeme = .fraction chars)
    (hdepth : s.depth = 0) {c : Char} (hread : s.read c = .ok s') :
    s' = if isDigit c = true then { s with lexeme := .fraction (c :: chars) }.advance c
      else ((behind s.offset (numberToken chars :: s.flush.tokens)).begin c).advance c := by
  unfold Scan.read extend? at hread
  rw [hlexeme, settle_number (Or.inr hlexeme) hdepth] at hread
  split
  · next hc =>
    simp only [hc, if_true] at hread
    exact (Except.ok.inj hread).symm
  · next hc =>
    simp only [hc] at hread
    exact (Except.ok.inj hread).symm

theorem read_digits {s s' : Scan} {chars : List Char} (hlexeme : s.lexeme = .digits chars)
    (hdepth : s.depth = 0) {c : Char} (hread : s.read c = .ok s') :
    s' = if isDigit c = true then { s with lexeme := .digits (c :: chars) }.advance c
      else if c = '.' then { s with lexeme := .point chars }.advance c
      else ((behind s.offset (numberToken chars :: s.flush.tokens)).begin c).advance c := by
  unfold Scan.read extend? at hread
  rw [hlexeme, settle_number (Or.inl hlexeme) hdepth] at hread
  split
  · next hc =>
    simp only [hc, if_true] at hread
    exact (Except.ok.inj hread).symm
  · next hc =>
    simp only [hc] at hread
    split
    · next hpoint =>
      simp only [hpoint, if_true] at hread
      rw [hpoint]
      exact (Except.ok.inj hread).symm
    · next hpoint =>
      simp only [hpoint] at hread
      exact (Except.ok.inj hread).symm

/-- Scans that are alike stay so. -/
theorem read {s t s' t' : Scan} (h : Alike s t) {c : Char} (hs : s.read c = .ok s')
    (ht : t.read c = .ok t') : Alike s' t' := by
  induction h generalizing s' t' with
  | @onto s k base base' hbase hbase' h =>
    rw [read_onto hbase] at hs
    rw [read_onto hbase'] at ht
    cases hread : s.read c with
    | error e =>
      rw [hread] at hs
      cases hs
    | ok s₁ =>
      rw [hread] at hs ht
      cases hs
      cases ht
      exact .onto s₁ hbase hbase' h
  | @point s chars front base hlexeme hdepth hfront hout hchars hbase h =>
    have ht' : t' = ((behind s.offset base).begin c).advance c := (Except.ok.inj ht).symm
    rw [read_point hlexeme hdepth hs, ht']
    split
    · next hc =>
      rw [begin_digit _ _ hc]
      exact .fraction (rfl : _ = Lexeme.fraction ([c] ++ '.' :: chars)) hdepth
        ((extended_flush s _ c).trans hfront) hout (period_not_mem_cons hc List.not_mem_nil) hchars h
    · rw [hfront]
      exact begin rfl hbase h c
  | @fraction s chars whole front base hlexeme hdepth hfront hout hchars hwhole h =>
    have hsame : hostBuilder (numberToken (chars ++ '.' :: whole) :: front)
        = hostBuilder (numberToken chars :: base) := by
      rw [hostBuilder_number hout hchars hwhole, hostBuilder_cons, h, ← hostBuilder_cons]
    have hbase : Outside base := Outside.congr h (hout.number whole).period
    rw [read_fraction hlexeme hdepth hs, read_digits rfl rfl ht]
    split
    · next hc =>
      exact .fraction rfl hdepth ((extended_flush s _ c).trans hfront) hout
        (period_not_mem_cons hc hchars) hwhole h
    · rw [hfront]
      split
      · next hpoint =>
        subst hpoint
        refine .symm (.point rfl rfl (rfl : _ = base) hbase hchars rfl ?_)
        show _ = hostBuilder (periodToken :: numberToken (chars ++ '.' :: whole) :: front)
        rw [hostBuilder_cons, ← hsame, ← hostBuilder_cons]
      · exact begin rfl rfl hsame c
  | symm _ ih => exact (ih ht hs).symm

theorem run {s t s' t' : Scan} (h : Alike s t) {cs : List Char} (hs : cs.foldlM Scan.read s = .ok s')
    (ht : cs.foldlM Scan.read t = .ok t') : Alike s' t' := by
  induction cs generalizing s t with
  | nil =>
    cases hs
    cases ht
    exact h
  | cons c cs ih =>
    rw [List.foldlM_cons] at hs ht
    obtain ⟨s₁, hs₁, hs⟩ := except_bind_ok hs
    obtain ⟨t₁, ht₁, ht⟩ := except_bind_ok ht
    exact ih (h.read hs₁ ht₁) hs ht

theorem settles_iff {s t : Scan} (h : Alike s t) :
    (∃ s', s.settle = .ok s') ↔ ∃ t', t.settle = .ok t' := by
  induction h with
  | @onto s k base base' hbase hbase' h =>
    rw [onto_settle hbase, onto_settle hbase']
    cases s.settle with
    | error e => simp [movedOnto]
    | ok s' => simp [movedOnto]
  | point hlexeme hdepth hfront hout hchars hbase h =>
    exact iff_of_true ⟨_, settle_point hlexeme hdepth⟩ ⟨_, rfl⟩
  | fraction hlexeme hdepth hfront hout hchars hwhole h =>
    exact iff_of_true ⟨_, settle_number (Or.inr hlexeme) hdepth⟩ ⟨_, settle_number (Or.inl rfl) rfl⟩
  | symm _ ih => exact ih.symm

/-- Scans that are alike end with tokens that are the same to a host. -/
theorem settle {s t s' t' : Scan} (h : Alike s t) (hs : s.settle = .ok s') (ht : t.settle = .ok t') :
    hostBuilder s'.flush.tokens = hostBuilder t'.flush.tokens := by
  induction h generalizing s' t' with
  | @onto s k base base' hbase hbase' h =>
    rw [onto_settle hbase] at hs
    rw [onto_settle hbase'] at ht
    cases hsettle : s.settle with
    | error e =>
      rw [hsettle] at hs
      cases hs
    | ok s₁ =>
      rw [hsettle] at hs ht
      cases hs
      cases ht
      rw [onto_flush, onto_flush]
      show hostBuilder (s₁.flush.tokens ++ base) = hostBuilder (s₁.flush.tokens ++ base')
      rw [hostBuilder_append, hostBuilder_append, h]
  | point hlexeme hdepth hfront hout hchars hbase h =>
    rw [settle_point hlexeme hdepth] at hs
    cases hs
    cases ht
    rw [hfront]
    exact h
  | fraction hlexeme hdepth hfront hout hchars hwhole h =>
    rw [settle_number (Or.inr hlexeme) hdepth] at hs
    rw [settle_number (Or.inl rfl) rfl] at ht
    cases hs
    cases ht
    show hostBuilder (numberToken _ :: _) = hostBuilder (numberToken _ :: _)
    rw [hfront, hostBuilder_number hout hchars hwhole, hostBuilder_cons, h, ← hostBuilder_cons]
    rfl
  | symm _ ih => exact (ih ht hs).symm

end Alike

end UriRouting

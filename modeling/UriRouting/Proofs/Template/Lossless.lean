import UriRouting.Proofs.Template.Readings
import UriRouting.Template.TokenStream
/-!
Lexing loses nothing but spaces outside quoted strings: `lex_lossless`.

The tokens of a template are spelled by stretches of its text, one behind the other, and each is as long
and as plain as its kind asks. Where lexing fails, the text before is read and the next stretch cannot
be.
-/

namespace UriRouting

open Numeric Text

/-! ## Statement -/

/-- What stands for a token in a template. -/
inductive Token.SpelledAs : Token → List Char → Prop
  | value {t : Token} (kind : t.kind = .text ∨ t.kind = .number ∨ t.kind = .punctuation) :
    SpelledAs t t.value.toList
  | var (name : String) : SpelledAs ⟨.var, name⟩ (':' :: name.toList)
  | quoted {quote : Char} {inside : List Char} {value : String} (mark : isQuote quote = true)
    (unescapes : Unescapes quote inside value.toList) :
    SpelledAs ⟨.quotedString, value⟩ (quote :: (inside ++ [quote]))

/-- The stretch of a token without spaces, but for those inside a quoted string. -/
def Token.unspaced (t : Token) (stretch : List Char) : List Char :=
  if t.kind = .quotedString then stretch.dropWhile (· = ' ') else stretch.filter (· ≠ ' ')

/-- A text is a stretch for each token in turn, and spaces behind them. -/
def CutInto (source : List Char) (tokens : List Token) : Prop :=
  ∃ stretches spaces, source = stretches.flatten ++ spaces ∧ (∀ c ∈ spaces, c = ' ') ∧
    List.Forall₂ (fun t stretch => t.SpelledAs (t.unspaced stretch)) tokens stretches

/-- Tokens tell the text that they are of. -/
structure TokensOf (source : List Char) (tokens : List Token) : Prop where
  cut : CutInto source tokens
  texts : ∀ t ∈ tokens, t.kind = .text →
    t.value ≠ "" ∧ ∀ c ∈ t.value.toList, c ∉ [' ', '.', '(', ')', '[', ']', ',', '/']
  maximal : tokens.IsChain fun t t' => ¬ (t.kind = .text ∧ t'.kind = .text)
  names : ∀ t ∈ tokens, t.kind = .var → IsName t.value.toList ∧ t.value.length ≤ 32
  ended : TokenStream.closed tokens = tokens ++ [.eof] ∧ ∀ t ∈ tokens, t.kind ≠ .eof

/-- The text in front is read, and behind it is a fault. -/
def FailsBehind (text : String) (front : List Char) (e : LexError) : Prop :=
  ∃ back tokens, text.toList = front ++ back ∧ lex (String.ofList front) = .ok tokens ∧
    Fault (nest {} tokens).depth (String.ofList front).utf8ByteSize back e

/-! ## Tokens -/

theorem filter_spaces {cs : List Char} (h : ∀ c ∈ cs, c = ' ') : cs.filter (· ≠ ' ') = [] :=
  List.filter_eq_nil_iff.mpr fun c hc => by simp [h c hc]

section

variable {depth : Nat} {text rest cs : List Char} {t : Token}

theorem Stretch.kind_ne_text (h : Stretch depth text rest cs t) : t.kind ≠ .text := by
  cases h <;> exact fun hkind => nomatch hkind

theorem Stretch.spelledAs (h : Stretch depth text rest cs t) : t.SpelledAs cs := by
  cases h with
  | @punctuation c => simpa using Token.SpelledAs.value (t := ⟨.punctuation, String.ofList [c]⟩) (by simp)
  | @var name => simpa using Token.SpelledAs.var (String.ofList name)
  | digits => simpa using Token.SpelledAs.value (t := ⟨.number, String.ofList cs⟩) (by simp)
  | @fraction whole cs =>
    simpa using Token.SpelledAs.value (t := ⟨.number, String.ofList (whole ++ '.' :: cs)⟩) (by simp)
  | quoted mark deep unescapes => exact .quoted mark (by rwa [String.toList_ofList])

/-- Spaces before a stretch do not count. -/
theorem Stretch.unspaced_eq (h : Stretch depth text rest cs t) {spaces : List Char}
    (hspaces : ∀ c ∈ spaces, c = ' ') : t.unspaced (spaces ++ cs) = cs := by
  by_cases hkind : t.kind = .quotedString
  · rw [Token.unspaced, if_pos hkind, List.dropWhile_append_of_pos fun c hc => decide_eq_true (hspaces c hc)]
    cases h with
    | @quoted quote inside value mark =>
      have hquote : quote ≠ ' ' := fun h => by rw [h] at mark; cases mark
      exact List.dropWhile_cons_of_neg (by simpa using hquote)
    | _ => cases hkind
  · rw [Token.unspaced, if_neg hkind, List.filter_append, filter_spaces hspaces,
      filter_spaceless (h.spaceless hkind), List.nil_append]

theorem Stretch.spelledAs_unspaced (h : Stretch depth text rest cs t) {spaces : List Char}
    (hspaces : ∀ c ∈ spaces, c = ' ') : t.SpelledAs (t.unspaced (spaces ++ cs)) := by
  rw [h.unspaced_eq hspaces]
  exact h.spelledAs

end

section

variable {n : Nesting} {text cs : List Char} {tokens : List Token}

/-- What holds of every text and of the token of every stretch holds of every token. -/
theorem Reads.forall_mem {P : Token → Prop} (h : Reads n text cs tokens)
    (htext : ∀ c ∈ text, c ≠ ' ' ∧ isPunctuationChar c = false)
    (texts : ∀ text : List Char, text ≠ [] → (∀ c ∈ text, c ≠ ' ' ∧ isPunctuationChar c = false) →
      P ⟨.text, String.ofList text⟩)
    (stretches : ∀ depth text rest front t, Stretch depth text rest front t → P t) :
    ∀ t ∈ tokens, P t := by
  have hpending : ∀ {text : List Char}, (∀ c ∈ text, c ≠ ' ' ∧ isPunctuationChar c = false) →
      ∀ t ∈ textTokens text, P t := by
    intro text htext t ht
    cases text with
    | nil => cases ht
    | cons c text => exact List.mem_singleton.mp ht ▸ texts _ (List.cons_ne_nil c text) htext
  induction h with
  | done => exact hpending htext
  | space rest ih => exact ih htext
  | @letter n text cs c tokens letter rest ih =>
    refine ih fun d hd => ?_
    rcases List.mem_append.mp hd with hd | hd
    · exact htext d hd
    · exact List.mem_singleton.mp hd ▸ ⟨letter.space, letter.mark⟩
  | token stretch rest ih =>
    intro t ht
    rcases List.mem_append.mp ht with ht | ht
    · exact hpending htext t ht
    · rcases List.mem_cons.mp ht with rfl | ht
      · exact stretches _ _ _ _ _ stretch
      · exact ih (fun c hc => by cases hc) t ht

/-- Two texts are never next to each other. -/
theorem Reads.maximal (h : Reads n text cs tokens) :
    tokens.IsChain fun t t' => ¬ (t.kind = .text ∧ t'.kind = .text) := by
  induction h with
  | @done n text => cases text <;> simp [textTokens]
  | space rest ih => exact ih
  | letter letter rest ih => exact ih
  | @token n text front cs t tokens stretch rest ih =>
    have hcons : (t :: tokens).IsChain fun t t' => ¬ (t.kind = .text ∧ t'.kind = .text) := by
      cases tokens with
      | nil => simp
      | cons t' tokens => exact List.isChain_cons_cons.mpr ⟨fun h => stretch.kind_ne_text h.1, ih⟩
    cases text with
    | nil => exact hcons
    | cons c text => exact List.isChain_cons_cons.mpr ⟨fun h => stretch.kind_ne_text h.2, hcons⟩

/-- What is read is cut into tokens. `before` is the source of the pending text, with spaces. -/
theorem Reads.cutInto (h : Reads n text cs tokens) {before : List Char}
    (hbefore : before.filter (· ≠ ' ') = text) : CutInto (before ++ cs) tokens := by
  have hspaces : ∀ {before : List Char}, before.filter (· ≠ ' ') = [] → ∀ c ∈ before, c = ' ' := by
    intro before h c hc
    simpa using List.filter_eq_nil_iff.mp h c hc
  have htext : ∀ {before text : List Char}, before.filter (· ≠ ' ') = text →
      Token.SpelledAs ⟨.text, String.ofList text⟩ (Token.unspaced ⟨.text, String.ofList text⟩ before) := by
    intro before text h
    rw [Token.unspaced, if_neg (by simp), h]
    simpa using Token.SpelledAs.value (t := ⟨.text, String.ofList text⟩) (by simp)
  induction h generalizing before with
  | @done n text =>
    rw [List.append_nil]
    cases text with
    | nil => exact ⟨[], before, rfl, hspaces hbefore, .nil⟩
    | cons c text =>
      exact ⟨[before], [], by simp, fun c hc => (List.not_mem_nil hc).elim, .cons (htext hbefore) .nil⟩
  | @space n text cs tokens rest ih =>
    rw [List.append_cons]
    exact ih (by rw [List.filter_append, hbefore]; exact List.append_nil text)
  | @letter n text cs c tokens letter rest ih =>
    rw [List.append_cons]
    refine ih ?_
    rw [List.filter_append, hbefore, filter_spaceless (by simpa using letter.space.symm)]
  | @token n text front cs t tokens stretch rest ih =>
    obtain ⟨stretches, spaces, hcs, hall, hspelled⟩ := ih (filter_spaces (List.forall_mem_nil _))
    rw [List.nil_append] at hcs
    cases text with
    | nil =>
      exact ⟨(before ++ front) :: stretches, spaces, by simp [hcs], hall,
        .cons (stretch.spelledAs_unspaced (hspaces hbefore)) hspelled⟩
    | cons c text =>
      exact ⟨before :: front :: stretches, spaces, by simp [hcs], hall, .cons (htext hbefore)
        (.cons (stretch.spelledAs_unspaced (List.forall_mem_nil _)) hspelled)⟩

end

theorem closed_eq {tokens : List Token} (h : ∀ t ∈ tokens, t.kind ≠ .eof) :
    TokenStream.closed tokens = tokens ++ [.eof] := by
  unfold TokenStream.closed
  cases hlast : tokens.getLast? with
  | none =>
    rw [List.getLast?_eq_none_iff.mp hlast]
    rfl
  | some last => exact if_neg (h last (List.mem_of_getLast? hlast))

theorem tokensOf_lex {text : String} {tokens : List Token} (h : lex text = .ok tokens) :
    TokensOf text.toList tokens := by
  have hreads := lex_reads_iff.mp h
  have heof := (lex_spelled h).kind_ne_eof
  refine ⟨hreads.cutInto (filter_spaces (List.forall_mem_nil _)), ?_, hreads.maximal, ?_, closed_eq heof, heof⟩
  · refine hreads.forall_mem (fun c hc => by cases hc) (fun text hne htext _ => ?_)
      fun depth text rest front t stretch htext => absurd htext stretch.kind_ne_text
    refine ⟨by simpa using hne, fun c hc => ?_⟩
    rw [String.toList_ofList] at hc
    obtain ⟨hspace, hmark⟩ := htext c hc
    simp only [isPunctuationChar, List.contains_eq_mem, decide_eq_false_iff_not] at hmark
    exact List.not_mem_cons_of_ne_of_not_mem hspace hmark
  · refine hreads.forall_mem (fun c hc => by cases hc) (fun text hne htext hkind => by cases hkind) ?_
    intro depth text rest front t stretch hkind
    cases stretch with
    | var letters short stop => simpa using And.intro letters (show _ ≤ 32 from short)
    | _ => cases hkind

/-! ## Failures -/

/-- A part of the text before a colon or a quote has a fault if the text has one. -/
theorem Fault.shorten {depth offset : Nat} {front back : List Char} {e : LexError} (hne : front ≠ [])
    (hback : Fresh back) (h : Fault depth offset (front ++ back) e) :
    ∃ e', Fault depth offset front e' := by
  generalize hcs : front ++ back = cs at h
  cases front with
  | nil => exact absurd rfl hne
  | cons c front =>
    cases h with
    | @name name rest letters long stop =>
      rw [List.cons_append] at hcs
      obtain ⟨rfl, htail⟩ := List.cons.inj hcs
      rcases List.append_eq_append_iff.mp htail with ⟨more, rfl, rfl⟩ | ⟨more, rfl, rfl⟩
      · cases more with
        | nil =>
          rw [List.append_nil] at letters long
          exact ⟨_, by simpa using Fault.name letters long (show Stops isNameChar [] from rfl)⟩
        | cons d more =>
          -- the text behind would begin inside the name
          have hd : isNameChar d = true := letters.2 d (by simp)
          rcases hback d rfl with rfl | hquote
          · cases hd
          · rw [isNameChar_fresh.2 d hquote] at hd
            cases hd
      · exact ⟨_, .name letters long stop.shorten⟩
    | quote mark deep unended =>
      obtain ⟨rfl, rfl⟩ := List.cons.inj hcs
      refine ⟨_, .quote mark deep fun inside more value hfront => ?_⟩
      exact unended inside (more ++ back) value (by rw [hfront]; simp)

/-- Only one front of a text has a fault behind it. -/
theorem FailsBehind.length_le {text : String} {front front' : List Char} {e e' : LexError}
    (h : FailsBehind text front e) (h' : FailsBehind text front' e') : front.length ≤ front'.length := by
  obtain ⟨back, tokens, hcs, hfront, hfault⟩ := h
  obtain ⟨back', tokens', hcs', hfront', hfault'⟩ := h'
  by_contra hlt
  rw [hcs] at hcs'
  rcases List.append_eq_append_iff.mp hcs' with ⟨more, rfl, rfl⟩ | ⟨more, rfl, rfl⟩
  · simp at hlt
  · have hne : more ≠ [] := by
      rintro rfl
      simp at hlt
    obtain ⟨e, hmore⟩ := hfault'.shorten hne hfault.fresh
    have herror := lex_fault_iff.mpr ⟨front', more, tokens', String.toList_ofList, hfront', hmore⟩
    rw [hfront] at herror
    cases herror

/-- A text is lexed into tokens that tell all of it but spaces outside quoted strings, or lexing fails
where the first name that is too long or the first quoted string without end begins. -/
theorem lex_lossless (text : String) :
    (∀ tokens, lex text = .ok tokens → TokensOf text.toList tokens) ∧
      ∀ e, lex text = .error e ↔ ∃ front, FailsBehind text front e ∧
        ∀ front' e', FailsBehind text front' e' → front.length ≤ front'.length := by
  refine ⟨fun tokens h => tokensOf_lex h, fun e => ⟨fun h => ?_, fun ⟨front, h, _⟩ => ?_⟩⟩
  · obtain ⟨front, back, tokens, hcs, hfront, hfault⟩ := lex_fault_iff.mp h
    have hfails : FailsBehind text front e := ⟨back, tokens, hcs, hfront, hfault⟩
    exact ⟨front, hfails, fun front' e' h' => hfails.length_le h'⟩
  · obtain ⟨back, tokens, hcs, hfront, hfault⟩ := h
    exact lex_fault_iff.mpr ⟨front, back, tokens, hcs, hfront, hfault⟩

end UriRouting

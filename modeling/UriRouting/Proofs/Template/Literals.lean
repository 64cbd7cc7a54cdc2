import Mathlib.Data.List.Chain
import UriRouting.Proofs.Route.Sources
import UriRouting.Proofs.Template.Readings
/-!
Paths without variables and optional parts.

The text is cut into texts, numbers and marks, but nothing of it is lost except spaces, and in a path each
token is a text, or the delimiter if it is a slash: `ofString_literal`.
-/

namespace UriRouting

open Numeric Text

/-! ## Characters -/

/-- No bracket opens an optional part, and behind no colon is a name. -/
structure IsLiteral (cs : List Char) : Prop where
  brackets : '[' ∉ cs
  colons : cs.IsChain fun c d => c = ':' → isNameStart d = false

section

variable {cs cs' : List Char}

theorem IsLiteral.of_infix (h : IsLiteral cs) (hpart : cs' <:+: cs) : IsLiteral cs' :=
  ⟨fun hmem => h.brackets (hpart.subset hmem), h.colons.infix hpart⟩

theorem IsLiteral.not_name {name rest : List Char} (h : IsLiteral (':' :: (name ++ rest))) :
    ¬ IsName name := by
  rintro ⟨hhead, -⟩
  cases name with
  | nil => cases hhead
  | cons d name =>
    have hd := (List.isChain_cons_cons.mp h.colons).1 rfl
    have hstart : isNameStart d = true := hhead
    rw [hd] at hstart
    cases hstart

end

/-! ## Tokens -/

/-- What a token is in a path, if it is neither a variable nor a bracket. -/
def Token.literalPart {ν : Type} (t : Token) : Part ν :=
  if t = slashToken then .delimiter else .text t.value

/-- A token that is a delimiter or a text in a path, and that no slash cuts. -/
structure Token.IsLiteral (t : Token) : Prop where
  kind : t.kind = .text ∨ t.kind = .number ∨ t.kind = .punctuation ∧ t.value ≠ "["
  nonempty : t.value ≠ ""
  whole : t ≠ slashToken → '/' ∉ t.value.toList

def tokenChars (tokens : List Token) : List Char := tokens.flatMap (·.value.toList)

theorem tokenChars_append (front back : List Token) :
    tokenChars (front ++ back) = tokenChars front ++ tokenChars back := List.flatMap_append

theorem tokenChars_textTokens (text : List Char) : tokenChars (textTokens text) = text := by
  cases text with
  | nil => rfl
  | cons c text => simp [tokenChars, textTokens]

section

variable {depth : Nat} {text rest cs : List Char} {t : Token}

theorem textTokens_literal (htext : ∀ c ∈ text, isPunctuationChar c = false) :
    ∀ t ∈ textTokens text, t.IsLiteral := by
  intro t ht
  cases text with
  | nil => cases ht
  | cons c text =>
    rw [List.mem_singleton.mp ht]
    refine ⟨Or.inl rfl, by simp, fun _ hslash => ?_⟩
    rw [String.toList_ofList] at hslash
    cases htext '/' hslash

/-- A stretch of a literal text is a literal token, and is written as it stands. -/
theorem Stretch.literal (h : Stretch depth text rest cs t) (hliteral : UriRouting.IsLiteral (cs ++ rest))
    (hdepth : depth = 0) : t.IsLiteral ∧ t.value.toList = cs := by
  cases h with
  | @punctuation c mark =>
    have hbracket : c ≠ '[' := fun hc => hliteral.brackets (by simp [hc])
    refine ⟨⟨Or.inr (Or.inr ⟨rfl, ?_⟩), by simp, fun hslash hmem => hslash ?_⟩, by simp⟩
    · exact fun h => hbracket (by simpa using congrArg String.toList h)
    · rw [String.toList_ofList, List.mem_singleton] at hmem
      rw [← hmem]
      rfl
  | var letters => exact absurd letters hliteral.not_name
  | digits digits =>
    refine ⟨⟨Or.inr (Or.inl rfl), by simpa using digits.1, fun _ => ?_⟩, by simp⟩
    rw [String.toList_ofList]
    exact digits.not_mem rfl
  | fraction before digits =>
    refine ⟨⟨Or.inr (Or.inl rfl), by simp, fun _ => ?_⟩, by simp⟩
    rw [String.toList_ofList]
    exact not_mem_fraction before digits rfl (by decide)
  | quoted mark deep unescapes => omega

theorem Token.IsLiteral.kind_ne_quoted (h : t.IsLiteral) : t.kind ≠ .quotedString := by
  rcases h.kind with hkind | hkind | ⟨hkind, -⟩ <;> simp [hkind]

theorem Token.IsLiteral.kind_ne_var (h : t.IsLiteral) : t.kind ≠ .var := by
  rcases h.kind with hkind | hkind | ⟨hkind, -⟩ <;> simp [hkind]

/-- Literal tokens are never inside parentheses. -/
theorem nest_literal {n : Nesting} (hdepth : n.depth = 0) (hbehind : n.behindVar = false)
    {tokens : List Token} (h : ∀ t ∈ tokens, t.IsLiteral) :
    (nest n tokens).depth = 0 ∧ (nest n tokens).behindVar = false := by
  induction tokens generalizing n with
  | nil => exact ⟨hdepth, hbehind⟩
  | cons t tokens ih =>
    refine ih (Nesting.step_outside hdepth fun h => by rw [hbehind] at h; cases h) ?_
      fun t' ht' => h t' (List.mem_cons_of_mem t ht')
    exact decide_eq_false (h t List.mem_cons_self).kind_ne_var

end

/-- A literal text reads as literal tokens, which have all of it but the spaces. -/
theorem Reads.literal {n : Nesting} {text cs : List Char} {tokens : List Token}
    (h : Reads n text cs tokens) (hliteral : IsLiteral cs) (hdepth : n.depth = 0)
    (hbehind : n.behindVar = false) (htext : ∀ c ∈ text, isPunctuationChar c = false) :
    (∀ t ∈ tokens, t.IsLiteral) ∧ tokenChars tokens = text ++ cs.filter (· ≠ ' ') := by
  induction h with
  | @done n text => exact ⟨textTokens_literal htext, by rw [tokenChars_textTokens]; simp⟩
  | @space n text cs tokens rest ih =>
    have htail := hliteral.of_infix (List.infix_cons List.infix_rfl)
    obtain ⟨hall, hchars⟩ := ih htail hdepth hbehind htext
    exact ⟨hall, by simpa using hchars⟩
  | @letter n text cs c tokens letter rest ih =>
    have htail := hliteral.of_infix (List.infix_cons List.infix_rfl)
    obtain ⟨hall, hchars⟩ := ih htail hdepth hbehind
      (List.forall_mem_append.mpr ⟨htext, List.forall_mem_singleton.mpr letter.mark⟩)
    exact ⟨hall, by simpa [letter.space] using hchars⟩
  | @token n text front cs t tokens stretch rest ih =>
    obtain ⟨ht, hvalue⟩ := stretch.literal hliteral hdepth
    have hspaceless := filter_spaceless (stretch.spaceless ht.kind_ne_quoted)
    have hfront : ∀ t' ∈ textTokens text ++ [t], t'.IsLiteral :=
      List.forall_mem_append.mpr ⟨textTokens_literal htext, List.forall_mem_singleton.mpr ht⟩
    obtain ⟨hdepth', hbehind'⟩ := nest_literal hdepth hbehind hfront
    have hback := hliteral.of_infix (List.suffix_append front cs).isInfix
    obtain ⟨hall, hchars⟩ := ih hback hdepth' hbehind' (List.forall_mem_nil _)
    rw [List.append_cons]
    refine ⟨List.forall_mem_append.mpr ⟨hfront, hall⟩, ?_⟩
    rw [tokenChars_append, tokenChars_append, tokenChars_textTokens, hchars, List.filter_append, hspaceless]
    simp [tokenChars, hvalue]

/-- Lexing a literal text does not fail. -/
theorem lex_literal {text : String} (h : IsLiteral text.toList) :
    ∃ tokens, lex text = .ok tokens ∧ (∀ t ∈ tokens, t.IsLiteral) ∧
      tokenChars tokens = text.toList.filter (· ≠ ' ') := by
  rcases reads_or_faulty {} [] 0 text.toList with
    ⟨tokens, hreads⟩ | ⟨front, back, tokens, e, hcs, hreads, hfault⟩
  · exact ⟨tokens, lex_reads_iff.mpr hreads, hreads.literal h rfl rfl (List.forall_mem_nil _)⟩
  · rw [hcs] at h
    have hfront := (hreads.literal (h.of_infix (List.prefix_append front back).isInfix) rfl rfl
      (List.forall_mem_nil _)).1
    rw [(nest_literal rfl rfl hfront).1] at hfault
    cases hfault with
    | name letters => exact absurd letters (h.of_infix (List.suffix_append front _).isInfix).not_name
    | quote mark deep => exact absurd deep (Nat.lt_irrefl 0)

/-! ## Paths -/

theorem Token.IsLiteral.role {t : Token} (h : t.IsLiteral) :
    t.role .path false = if t = slashToken then .delimiter else .text := by
  obtain ⟨kind, value⟩ := t
  rcases h.kind with rfl | rfl | ⟨rfl, hbracket⟩
  · rfl
  · rfl
  · by_cases hslash : value = "/"
    · subst hslash
      rfl
    · have hne : (⟨.punctuation, value⟩ : Token) ≠ slashToken := fun h => hslash (congrArg Token.value h)
      have hbracket : value ≠ "[" := hbracket
      rw [if_neg hne]
      simp [Token.role, Side.mark, hslash, hbracket]

theorem spellsRow_literal {behindVar : Bool} {tokens : List Token} (h : ∀ t ∈ tokens, t.IsLiteral) :
    SpellsRow .path false behindVar (tokens.map Token.literalPart) tokens := by
  induction tokens generalizing behindVar with
  | nil => exact .nil
  | cons t tokens ih =>
    have hrest : SpellsRow .path false false (tokens.map Token.literalPart) tokens :=
      ih fun t' ht' => h t' (List.mem_cons_of_mem t ht')
    have hrole := (h t List.mem_cons_self).role
    rw [List.map_cons, Token.literalPart]
    by_cases hslash : t = slashToken
    · rw [if_pos hslash] at hrole ⊢
      exact .delimiter hrole hrest
    · rw [if_neg hslash] at hrole ⊢
      exact .text hrole hrest

/-- A literal path has delimiters for slashes and else texts. -/
theorem ofString_literal {text : String} (h : IsLiteral text.toList) {rest : List Char}
    (htext : text.toList = '/' :: rest) :
    ∃ tokens, Template.ofString text = .ok ⟨none, tokens.map Token.literalPart⟩ ∧
      (∀ t ∈ tokens, t.IsLiteral) ∧ tokenChars tokens = text.toList.filter (· ≠ ' ') := by
  obtain ⟨tokens, hlex, hall, hchars⟩ := lex_literal h
  obtain ⟨more, rfl⟩ := lex_slash_first htext hlex
  exact ⟨_, ofString_ok_iff.mpr ⟨_, hlex, (spelledBy_of_slash rfl).mpr ⟨rfl, spellsRow_literal hall⟩⟩,
    hall, hchars⟩

end UriRouting

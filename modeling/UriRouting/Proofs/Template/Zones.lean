import Mathlib.Data.List.Forall2
import UriRouting.Proofs.Template.Acceptance
import UriRouting.Proofs.Template.Readings
import UriRouting.Proofs.Template.Slots
/-!
The lexer and the parser agree on where the rules of variables are: `parser_follows_lexer`.

The lexer only counts parentheses, and looks one token back; the parser knows what each token is for.
`Zoned` marks each token with its zone, as the parser reads it, and along the marks the lexer's count is
positive exactly from behind the parenthesis that opens rules to the one that closes them.
-/

namespace UriRouting

open Text
open UriRouting.Part (texts)

/-! ## Zones -/

/-- Where a token stands. -/
inductive Zone
  /-- A part of the host or path, or the name of a variable. -/
  | part
  /-- The parenthesis that opens the rules of a variable. -/
  | opening
  | inside
  | closing
  deriving DecidableEq

/-- What is read right behind the parenthesis that opens rules, or further inside. -/
def Zone.isDeep : Zone → Bool
  | part | opening => false
  | inside | closing => true

/-- The texts that a token outside rules adds. -/
inductive Token.Names : Token → List String → Prop
  | mark {t : Token} (kind : t.kind = .punctuation) : Names t []
  | text {t : Token} (kind : t.kind ≠ .var) : Names t [t.value]
  | labels {t : Token} (kind : t.kind = .number) :
    Names t ((splitAt '.' t.value.toList).map String.ofList)

/-- The zones of tokens that spell variables and texts. -/
inductive Zoned : List Slot → List String → List Token → List Zone → Prop
  | nil : Zoned [] [] [] []
  | part {t : Token} {named strings : List String} {vars : List Slot} {tokens : List Token}
    {zones : List Zone} (names : t.Names named) (rest : Zoned vars strings tokens zones) :
    Zoned vars (named ++ strings) (t :: tokens) (.part :: zones)
  | bare {t : Token} {strings : List String} {vars : List Slot} {tokens : List Token} {zones : List Zone}
    (kind : t.kind = .var) (alone : tokens.head?.any (·.isPunctuation "(") = false)
    (rest : Zoned vars strings tokens zones) :
    Zoned (⟨t.value, []⟩ :: vars) strings (t :: tokens) (.part :: zones)
  | ruled {t opening closing : Token} {rules : List RuleCall} {inside tokens : List Token}
    {strings : List String} {vars : List Slot} {zones : List Zone} (kind : t.kind = .var)
    (opens : opening.isPunctuation "(" = true) (listed : Listed SpellsCall rules (inside ++ [closing]))
    (rest : Zoned vars strings tokens zones) :
    Zoned (⟨t.value, rules⟩ :: vars) strings (t :: opening :: (inside ++ closing :: tokens))
      (.part :: .opening :: (List.replicate inside.length .inside ++ .closing :: zones))

theorem Token.Names.kind_ne_var {t : Token} {named : List String} (h : t.Names named) : t.kind ≠ .var := by
  cases h with
  | mark kind => simp [kind]
  | text kind => exact kind
  | labels kind => simp [kind]

section

variable {vars vars' : List Slot} {strings strings' : List String} {tokens tokens' : List Token}
  {zones zones' : List Zone}

theorem Zoned.append (h : Zoned vars strings tokens zones) (h' : Zoned vars' strings' tokens' zones')
    (hhead : tokens'.head?.any (·.isPunctuation "(") = false) :
    Zoned (vars ++ vars') (strings ++ strings') (tokens ++ tokens') (zones ++ zones') := by
  induction h with
  | nil => exact h'
  | part names rest ih =>
    rw [List.append_assoc]
    exact .part names ih
  | @bare t strings vars tokens zones kind alone rest ih =>
    refine .bare kind ?_ ih
    cases tokens with
    | nil => exact hhead
    | cons t' tokens => exact alone
  | ruled kind opens listed rest ih =>
    simp only [List.cons_append, List.append_assoc]
    exact .ruled kind opens listed ih

theorem Zoned.mark {t : Token} (kind : t.kind = .punctuation) (h : Zoned vars strings tokens zones) :
    Zoned vars strings (t :: tokens) (.part :: zones) := .part (.mark kind) h

end

theorem Labels.texts_eq {parts : List (Part Slot)} {cs : List Char} (h : Labels parts cs) :
    texts parts = (splitAt '.' cs).map String.ofList := by
  rw [← String.toList_ofList (l := cs), labels_iff] at h
  rw [h, Builder.labelParts, Builder.texts_intersperse, String.toList_ofList]

/-- A list ends with its closing parenthesis. -/
theorem Listed.exists_closing {γ : Type} {Item : γ → List Token → Prop} {xs : List γ}
    {tokens : List Token} (h : Listed Item xs tokens) :
    ∃ inside closing, tokens = inside ++ [closing] ∧ closing.isPunctuation ")" = true := by
  induction h with
  | last spelled closing => exact ⟨_, _, rfl, closing⟩
  | @more x xs item rest mark spelled comma others ih =>
    obtain ⟨inside, closing, rfl, hclosing⟩ := ih
    exact ⟨item ++ mark :: inside, closing, by simp, hclosing⟩

theorem Listed.closing {γ : Type} {Item : γ → List Token → Prop} {xs : List γ} {inside : List Token}
    {mark : Token} (h : Listed Item xs (inside ++ [mark])) : mark.isPunctuation ")" = true := by
  obtain ⟨inside', mark', heq, hmark⟩ := h.exists_closing
  obtain ⟨-, hlast⟩ := List.append_inj' heq rfl
  exact List.head_eq_of_cons_eq hlast ▸ hmark

/-- Every row has its zones. -/
theorem SpellsRow.zoned {side : Side} {nested behindVar : Bool} {parts : List (Part Slot)}
    {tokens : List Token} (h : SpellsRow side nested behindVar parts tokens) :
    ∃ zones, Zoned (slots parts) (texts parts) tokens zones := by
  induction h with
  | nil => exact ⟨[], .nil⟩
  | delimiter role rest ih =>
    obtain ⟨zones, hzones⟩ := ih
    exact ⟨_, hzones.mark (Builder.kind_of_isPunctuation (isPunctuation_of_delimiter role))⟩
  | text role rest ih =>
    obtain ⟨zones, hzones⟩ := ih
    exact ⟨_, .part (.text (kind_ne_var_of_text role)) hzones⟩
  | @labels side nested behindVar t named parts tokens role labels rest ih =>
    obtain ⟨zones, hzones⟩ := ih
    rw [slots_append, labels.slots_eq, Part.texts_append, labels.texts_eq]
    exact ⟨_, .part (.labels (kind_of_labels role).1) hzones⟩
  | var role bare rest ih =>
    obtain ⟨zones, hzones⟩ := ih
    exact ⟨_, .bare (kind_of_var role) bare hzones⟩
  | ruled role opening spelled rest ih =>
    obtain ⟨zones, hzones⟩ := ih
    obtain ⟨inside, closing, rfl, -⟩ := spelled.exists_closing
    rw [List.append_assoc, List.singleton_append]
    exact ⟨_, .ruled (kind_of_var role) opening spelled hzones⟩
  | optionalPath role start spelled closing rest ihinner ih =>
    obtain ⟨inner, hinner⟩ := ihinner
    obtain ⟨zones, hzones⟩ := ih
    have hclosing := hzones.mark (Builder.kind_of_isPunctuation closing)
    have hbehind := hinner.append hclosing (by simp [Builder.isPunctuation_eq closing])
    exact ⟨_, (hbehind.mark (Builder.kind_of_isPunctuation start)).mark
      (Builder.kind_of_isPunctuation (isPunctuation_of_opening role))⟩
  | optionalHost role spelled stop closing rest ihinner ih =>
    obtain ⟨inner, hinner⟩ := ihinner
    obtain ⟨zones, hzones⟩ := ih
    have hclosing := hzones.mark (Builder.kind_of_isPunctuation closing)
    have hbehind := hinner.append hclosing (by simp [Builder.isPunctuation_eq closing])
    exact ⟨_, hbehind.mark (Builder.kind_of_isPunctuation (isPunctuation_of_opening role))⟩

/-- The parts of the host and of the path. -/
def Template.parts (t : Template) : List (Part Slot) := t.host?.getD [] ++ t.path

theorem Template.SpelledBy.zoned {t : Template} {tokens : List Token} (h : t.SpelledBy tokens) :
    ∃ zones, Zoned (slots t.parts) (texts t.parts) tokens zones := by
  cases h with
  | path cut brackets spelled => exact spelled.zoned
  | @host tokens front back host path cut more spelledHost spelledPath =>
    obtain ⟨zones, hzones⟩ := spelledHost.zoned
    obtain ⟨zones', hzones'⟩ := spelledPath.zoned
    have hhead : back.head?.any (·.isPunctuation "(") = false := by
      have hslash := cut.back
      cases back with
      | nil => rfl
      | cons t back => exact Builder.isPunctuation_eq hslash "("
    rw [cut.joined, parts, slots_append, Part.texts_append]
    exact ⟨_, hzones.append hzones' hhead⟩

/-! ## Depth -/

/-- The depth does not fall below `level` before the tokens end. -/
def Above (level : Nat) (n : Nesting) (tokens : List Token) : Prop :=
  ∀ k < tokens.length, level ≤ (nest n (tokens.take k)).depth

section

variable {level : Nat} {n : Nesting} {t : Token} {tokens : List Token}

theorem nest_cons (n : Nesting) (t : Token) (tokens : List Token) :
    nest n (t :: tokens) = nest (n.step t) tokens := rfl

theorem above_nil : Above level n [] := fun _ hk => absurd hk (Nat.not_lt_zero _)

theorem above_cons : Above level n (t :: tokens) ↔ level ≤ n.depth ∧ Above level (n.step t) tokens := by
  constructor
  · intro h
    exact ⟨h 0 (Nat.zero_lt_succ _), fun k hk => h (k + 1) (Nat.succ_lt_succ hk)⟩
  · rintro ⟨h, hrest⟩ k hk
    cases k with
    | zero => exact h
    | succ k => exact hrest k (Nat.lt_of_succ_lt_succ hk)

theorem Above.append {tokens' : List Token} (h : Above level n tokens)
    (h' : Above level (nest n tokens) tokens') : Above level n (tokens ++ tokens') := by
  induction tokens generalizing n with
  | nil => exact h'
  | cons t tokens ih =>
    obtain ⟨hdepth, hrest⟩ := above_cons.mp h
    exact above_cons.mpr ⟨hdepth, ih hrest h'⟩

theorem Above.mono {level' : Nat} (h : Above level n tokens) (hle : level' ≤ level) :
    Above level' n tokens := fun k hk => Nat.le_trans hle (h k hk)

theorem Nesting.step_opening (h : 0 < n.depth ∨ n.behindVar = true) (ht : t.isPunctuation "(" = true) :
    (n.step t).depth = n.depth + 1 := by
  simp [step, ht, h]

theorem Nesting.step_closing (ht : t.isPunctuation ")" = true) : (n.step t).depth = n.depth - 1 := by
  simp [step, ht, Builder.isPunctuation_eq ht "("]

theorem Nesting.step_comma (ht : t.isPunctuation "," = true) : (n.step t).depth = n.depth := by
  simp [step, Builder.isPunctuation_eq ht "(", Builder.isPunctuation_eq ht ")"]

end

/-- Tokens that stay inside the parentheses around them and leave the depth as it was. -/
def Level (item : List Token) : Prop :=
  ∀ n : Nesting, 0 < n.depth → Above n.depth n item ∧ (nest n item).depth = n.depth

theorem Level.append {front back : List Token} (h : Level front) (h' : Level back) :
    Level (front ++ back) := by
  intro n hn
  obtain ⟨habove, hdepth⟩ := h n hn
  obtain ⟨habove', hdepth'⟩ := h' (nest n front) (hdepth ▸ hn)
  rw [nest_append]
  rw [hdepth] at habove' hdepth'
  exact ⟨habove.append habove', hdepth'⟩

theorem level_single {t : Token} (h : ∀ n : Nesting, (n.step t).depth = n.depth) : Level [t] :=
  fun n _ => ⟨above_cons.mpr ⟨Nat.le_refl _, above_nil⟩, h n⟩

/-- A list of such items falls below the depth behind its last token only. -/
theorem Listed.above {γ : Type} {Item : γ → List Token → Prop}
    (hitem : ∀ x item, Item x item → Level item) {xs : List γ} {tokens : List Token}
    (h : Listed Item xs tokens) {n : Nesting} (hn : 0 < n.depth) :
    Above n.depth n tokens ∧ (nest n tokens).depth = n.depth - 1 := by
  induction h generalizing n with
  | @last x item mark spelled closing =>
    obtain ⟨habove, hdepth⟩ := hitem x item spelled n hn
    rw [nest_append]
    refine ⟨habove.append (above_cons.mpr ⟨Nat.le_of_eq hdepth.symm, above_nil⟩), ?_⟩
    rw [← hdepth]
    exact Nesting.step_closing closing
  | @more x xs item rest mark spelled comma others ih =>
    obtain ⟨habove, hdepth⟩ := ((hitem x item spelled).append
      (level_single fun n => Nesting.step_comma comma)) n hn
    obtain ⟨habove', hdepth'⟩ := ih (n := nest n (item ++ [mark])) (hdepth ▸ hn)
    rw [hdepth] at habove' hdepth'
    rw [List.append_cons, nest_append]
    exact ⟨habove.append habove', hdepth'⟩

theorem SpellsParam.level {p : Param} {item : List Token} (h : SpellsParam p item) : Level item := by
  obtain ⟨t, rfl, ht⟩ := h
  exact level_single fun n => Nesting.step_depth ht.kind_ne_punctuation

theorem SpellsCall.level {call : RuleCall} {item : List Token} (h : SpellsCall call item) :
    Level item := by
  cases h with
  | @named t params? tokens name spelled =>
    refine (level_single fun n => Nesting.step_depth (by simp [name])).append ?_
    cases spelled with
    | none => exact fun n _ => ⟨above_nil, rfl⟩
    | @some mark params tokens opening spelled =>
      intro n hn
      have hopen := Nesting.step_opening (Or.inl hn) opening
      have hpos : 0 < (n.step mark).depth := by omega
      cases spelled with
      | @none mark' closing =>
        refine ⟨above_cons.mpr ⟨Nat.le_refl _, above_cons.mpr ⟨by omega, above_nil⟩⟩, ?_⟩
        have hclose := Nesting.step_closing (n := n.step mark) closing
        rw [nest_cons, nest_cons]
        change ((n.step mark).step mark').depth = _
        omega
      | some listed =>
        obtain ⟨habove, hdepth⟩ := listed.above (fun p item h => h.level) hpos
        refine ⟨above_cons.mpr ⟨Nat.le_refl _, habove.mono (by omega)⟩, ?_⟩
        rw [nest_cons]
        omega

section

variable {vars : List Slot} {strings : List String} {tokens : List Token} {zones : List Zone}

theorem zone_inside {length k : Nat} (hk : k ≤ length) :
    (List.replicate length Zone.inside ++ .closing :: zones)[k]?.any Zone.isDeep = true := by
  rcases Nat.lt_or_eq_of_le hk with hk | rfl
  · rw [List.getElem?_append_left (by simpa using hk)]
    simp [hk, Zone.isDeep]
  · rw [List.getElem?_append_right (by simp)]
    simp [Zone.isDeep]

theorem zone_behind {length k : Nat} :
    (List.replicate length Zone.inside ++ .closing :: zones)[length + 1 + k]? = zones[k]? := by
  rw [List.getElem?_append_right (by rw [List.length_replicate]; omega), List.length_replicate,
    Nat.add_assoc, Nat.add_sub_cancel_left, Nat.add_comm, List.getElem?_cons_succ]

/-- Along the zones, the lexer's count is positive where rules are. -/
theorem Zoned.depth (h : Zoned vars strings tokens zones) {n : Nesting} (hdepth : n.depth = 0)
    (hbehind : n.behindVar = true → tokens.head?.any (·.isPunctuation "(") = false) (k : Nat) :
    0 < (nest n (tokens.take k)).depth ↔ zones[k]?.any Zone.isDeep = true := by
  induction h generalizing n k with
  | nil => simp [nest, hdepth]
  | @part t named strings vars tokens zones names rest ih =>
    cases k with
    | zero => simp [nest, hdepth, Zone.isDeep]
    | succ k =>
      have hkind : (n.step t).behindVar = true → tokens.head?.any (·.isPunctuation "(") = false :=
        fun h => absurd (of_decide_eq_true h) names.kind_ne_var
      exact ih (Nesting.step_outside hdepth hbehind) hkind k
  | @bare t strings vars tokens zones kind alone rest ih =>
    cases k with
    | zero => simp [nest, hdepth, Zone.isDeep]
    | succ k => exact ih (Nesting.step_outside hdepth hbehind) (fun _ => alone) k
  | @ruled t opening closing rules inside tokens strings vars zones kind opens listed rest ih =>
    have hvar := Nesting.step_outside hdepth hbehind
    have hone : ((n.step t).step opening).depth = 1 := by
      rw [Nesting.step_opening (Or.inr (by simp [Nesting.step, kind])) opens, hvar]
    obtain ⟨habove, hend⟩ := listed.above (fun call item h => h.level) (hone ▸ Nat.zero_lt_one)
    rw [hone] at habove hend
    cases k with
    | zero => simp [nest, hdepth, Zone.isDeep]
    | succ k =>
      cases k with
      | zero =>
        change 0 < (n.step t).depth ↔ _
        simp [hvar, Zone.isDeep]
      | succ k =>
        change 0 < (nest ((n.step t).step opening) ((inside ++ closing :: tokens).take k)).depth ↔
          (List.replicate inside.length Zone.inside ++ .closing :: zones)[k]?.any Zone.isDeep = true
        rw [List.append_cons]
        rcases Nat.lt_or_ge k (inside ++ [closing]).length with hk | hk
        · rw [List.take_append_of_le_length (Nat.le_of_lt hk)]
          rw [List.length_append, List.length_singleton] at hk
          exact iff_of_true (habove k (by simpa using hk)) (zone_inside (Nat.lt_succ_iff.mp hk))
        · obtain ⟨k, rfl⟩ := Nat.exists_eq_add_of_le hk
          rw [List.take_length_add_append, nest_append, List.length_append, List.length_singleton, zone_behind]
          refine ih hend (fun hbehind => ?_) k
          rw [nest_append] at hbehind
          have hkind := of_decide_eq_true hbehind
          rw [Builder.kind_of_isPunctuation listed.closing] at hkind
          cases hkind

theorem Zoned.length (h : Zoned vars strings tokens zones) : zones.length = tokens.length := by
  induction h with
  | nil => rfl
  | part names rest ih => simp [ih]
  | bare kind alone rest ih => simp [ih]
  | ruled kind opens listed rest ih => simp [ih]

/-- Tokens with their zones, where a variable has rules. -/
theorem zip_ruled (t opening closing : Token) (inside tokens : List Token) (zones : List Zone) :
    (t :: opening :: (inside ++ closing :: tokens)).zip
        (.part :: .opening :: (List.replicate inside.length .inside ++ .closing :: zones))
      = (t, .part) :: (opening, .opening) :: (inside.map (·, .inside) ++ (closing, .closing) ::
          tokens.zip zones) := by
  have hinside : inside.zip (List.replicate inside.length Zone.inside) = inside.map (·, .inside) := by
    induction inside with
    | nil => rfl
    | cons t inside ih => simp [List.replicate_succ, ih]
  rw [List.zip_cons_cons, List.zip_cons_cons, List.zip_append (by simp), hinside, List.zip_cons_cons]

/-- Only marks open and close rules. -/
theorem Zoned.kind (h : Zoned vars strings tokens zones) {t : Token} {z : Zone}
    (ht : (t, z) ∈ tokens.zip zones) (hz : z = .opening ∨ z = .closing) : t.kind = .punctuation := by
  induction h with
  | nil => cases ht
  | part names rest ih =>
    rcases List.mem_cons.mp ht with heq | ht
    · cases heq
      rcases hz with hz | hz <;> cases hz
    · exact ih ht
  | bare kind alone rest ih =>
    rcases List.mem_cons.mp ht with heq | ht
    · cases heq
      rcases hz with hz | hz <;> cases hz
    · exact ih ht
  | @ruled t' opening closing rules inside tokens strings vars zones kind opens listed rest ih =>
    rw [zip_ruled] at ht
    simp only [List.mem_cons, List.mem_append, List.mem_map, Prod.mk.injEq] at ht
    rcases ht with ⟨rfl, rfl⟩ | ⟨rfl, rfl⟩ | ⟨t', -, rfl, rfl⟩ | ⟨rfl, rfl⟩ | ht
    · rcases hz with hz | hz <;> cases hz
    · exact Builder.kind_of_isPunctuation opens
    · rcases hz with hz | hz <;> cases hz
    · exact Builder.kind_of_isPunctuation listed.closing
    · exact ih ht

/-- A text outside rules is a text of the template. -/
theorem Zoned.mem_strings (h : Zoned vars strings tokens zones) {t : Token}
    (ht : (t, .part) ∈ tokens.zip zones) (hkind : t.kind = .text) : t.value ∈ strings := by
  induction h with
  | nil => cases ht
  | part names rest ih =>
    rcases List.mem_cons.mp ht with heq | ht
    · cases heq
      cases names with
      | mark kind => cases hkind.symm.trans kind
      | text kind => exact List.mem_append_left _ (List.mem_singleton_self _)
      | labels kind => cases hkind.symm.trans kind
    · exact List.mem_append_right _ (ih ht)
  | bare kind alone rest ih =>
    rcases List.mem_cons.mp ht with heq | ht
    · cases heq
      cases hkind.symm.trans kind
    · exact ih ht
  | @ruled t' opening closing rules inside tokens strings vars zones kind opens listed rest ih =>
    rw [zip_ruled] at ht
    simp only [List.mem_cons, List.mem_append, List.mem_map, Prod.mk.injEq, reduceCtorEq, and_false,
      exists_false, false_or, and_true] at ht
    rcases ht with rfl | ht
    · cases hkind.symm.trans kind
    · exact ih ht

/-! ## Quoted strings -/

/-- The parameters that quoted strings stand for. -/
def quotedParams (tokens : List Token) : List Param :=
  (tokens.filter (·.kind = .quotedString)).map fun t => .str t.value

theorem quotedParams_append (front back : List Token) :
    quotedParams (front ++ back) = quotedParams front ++ quotedParams back := by
  rw [quotedParams, List.filter_append, List.map_append]
  rfl

theorem quotedParams_cons {t : Token} (h : t.kind ≠ .quotedString) (tokens : List Token) :
    quotedParams (t :: tokens) = quotedParams tokens := by
  rw [quotedParams, List.filter_cons_of_neg (by simpa using h)]
  rfl

theorem quotedParams_mark {t : Token} {mark : String} (h : t.isPunctuation mark = true)
    (tokens : List Token) : quotedParams (t :: tokens) = quotedParams tokens :=
  quotedParams_cons (by simp [Builder.kind_of_isPunctuation h]) tokens

theorem Listed.quotedParams {γ : Type} {Item : γ → List Token → Prop} {params : γ → List Param}
    (hitem : ∀ x item, Item x item → (quotedParams item).Sublist (params x)) {xs : List γ}
    {tokens : List Token} (h : Listed Item xs tokens) :
    (UriRouting.quotedParams tokens).Sublist (xs.flatMap params) := by
  induction h with
  | last spelled closing =>
    rw [quotedParams_append, quotedParams_mark closing, List.flatMap_singleton]
    simpa [UriRouting.quotedParams] using hitem _ _ spelled
  | more spelled comma others ih =>
    rw [quotedParams_append, quotedParams_mark comma, List.flatMap_cons]
    exact (hitem _ _ spelled).append ih

theorem SpellsParam.quotedParams {p : Param} {item : List Token} (h : SpellsParam p item) :
    (quotedParams item).Sublist [p] := by
  obtain ⟨t, rfl, ht⟩ := h
  cases ht with
  | number kind value => simp [UriRouting.quotedParams, kind]
  | quoted kind => simp [UriRouting.quotedParams, kind]
  | text kind => simp [UriRouting.quotedParams, kind]

theorem SpellsCall.quotedParams {call : RuleCall} {item : List Token} (h : SpellsCall call item) :
    (quotedParams item).Sublist (call.params?.getD []) := by
  cases h with
  | named name spelled =>
    rw [quotedParams_cons (by simp [name])]
    cases spelled with
    | none => exact List.Sublist.refl _
    | some opening spelled =>
      rw [quotedParams_mark opening]
      cases spelled with
      | none closing =>
        rw [quotedParams_mark closing]
        exact List.Sublist.refl _
      | @some params tokens listed =>
        have hparams := listed.quotedParams fun p item (h : SpellsParam p item) => h.quotedParams
        rwa [List.flatMap_singleton'] at hparams

/-- Quoted strings inside rules are parameters, in order. -/
theorem Zoned.quotedParams (h : Zoned vars strings tokens zones)
    (hinside : ∀ t z, (t, z) ∈ tokens.zip zones → t.kind = .quotedString → z = .inside) :
    (quotedParams tokens).Sublist (vars.flatMap Slot.params) := by
  have hpart : ∀ {t : Token} {tokens : List Token} {zones : List Zone},
      (∀ t' z, (t', z) ∈ (t, Zone.part) :: tokens.zip zones → t'.kind = .quotedString → z = .inside) →
      t.kind ≠ .quotedString := by
    intro t tokens zones hinside hkind
    cases hinside t .part List.mem_cons_self hkind
  induction h with
  | nil => exact List.Sublist.refl _
  | part names rest ih =>
    rw [quotedParams_cons (hpart hinside)]
    exact ih fun t z ht => hinside t z (List.mem_cons_of_mem _ ht)
  | bare kind alone rest ih =>
    rw [quotedParams_cons (hpart hinside)]
    exact ih fun t z ht => hinside t z (List.mem_cons_of_mem _ ht)
  | @ruled t opening closing rules inside tokens strings vars zones kind opens listed rest ih =>
    rw [zip_ruled] at hinside
    have hlisted := listed.quotedParams fun call item (h : SpellsCall call item) => h.quotedParams
    rw [quotedParams_cons (by simp [kind]), quotedParams_mark opens, List.append_cons,
      quotedParams_append, List.flatMap_cons]
    exact hlisted.append (ih fun t z ht => hinside t z (by simp [ht]))

end

/-! ## The parser -/

/-- What the parser has read before a token: of the host, or of the path. -/
def readBefore (tokens : List Token) (k : Nat) : Except UnexpectedToken Builder :=
  match splitSides tokens with
  | (none, path) => (path.take k).foldlM (Builder.read .path) {}
  | (some host, path) =>
    if k < host.length then (host.take k).foldlM (Builder.read .host) {}
    else (path.take (k - host.length)).foldlM (Builder.read .path) {}

/-- A builder that reads a side stands, before each token, as deep as the tokens have led. -/
theorem SpellsRow.readBefore {side : Side} {parts : List (Part Slot)} {tokens : List Token}
    (h : SpellsRow side false false parts tokens) (hspelled : Spelled {} tokens)
    (hslash : side = .host → ∀ t ∈ tokens, t.isPunctuation "/" = false) (k : Nat) :
    ∃ b, (tokens.take k).foldlM (Builder.read side) {} = .ok b ∧
      b.awaiting.depth = (nest {} (tokens.take k)).depth := by
  have hparse : parseSide side tokens .eof = .ok parts := parseSide_ok_iff.mpr h
  obtain ⟨b, hrun, -⟩ := except_bind_ok hparse
  rw [← List.take_append_drop k tokens, List.foldlM_append] at hrun
  obtain ⟨b', hrun, -⟩ := except_bind_ok hrun
  rw [← List.take_append_drop k tokens, spelled_append] at hspelled
  have hfollows := (Builder.inOrder_start side).run Builder.follows_start hspelled.1
    (fun hside t ht => hslash hside t (List.mem_of_mem_take ht)) hrun
  exact ⟨b', hrun, hfollows.2.depth.symm⟩

theorem Template.SpelledBy.readBefore {template : Template} {tokens : List Token}
    (h : template.SpelledBy tokens) (hspelled : Spelled {} tokens) (k : Nat) :
    ∃ b, readBefore tokens k = .ok b ∧ b.awaiting.depth = (nest {} (tokens.take k)).depth := by
  unfold UriRouting.readBefore splitSides
  cases h with
  | path cut brackets spelled =>
    rw [cut.eq.1] at brackets
    rw [if_pos (List.all_eq_true.mpr brackets)]
    exact spelled.readBefore hspelled (fun hside => by cases hside) k
  | @host tokens front back host path cut more spelledHost spelledPath =>
    have hsplit : ¬ front.all Token.isBracket = true := by
      obtain ⟨t, ht, hmore⟩ := more
      exact fun hall => Bool.false_ne_true (hmore.symm.trans (List.all_eq_true.mp hall t ht))
    rw [← cut.eq.1, ← cut.eq.2, if_neg hsplit]
    dsimp only
    rw [cut.joined, spelled_append] at hspelled
    rw [cut.joined]
    obtain ⟨hfront, hback⟩ := hspelled
    by_cases hk : k < front.length
    · rw [if_pos hk, List.take_append_of_le_length (Nat.le_of_lt hk)]
      exact spelledHost.readBefore hfront (fun _ => cut.front) k
    · obtain ⟨j, rfl⟩ := Nat.exists_eq_add_of_le (Nat.not_lt.mp hk)
      rw [if_neg hk, Nat.add_sub_cancel_left, List.take_length_add_append, nest_append]
      have hparse : parseSide .host front .eof = .ok host := parseSide_ok_iff.mpr spelledHost
      have hzero := (parseSide_texts hfront (fun _ => cut.front) hparse).2
      -- behind the host the parser starts anew, and the count is back at zero
      have hrestart : Spelled {} back ∧ (nest (nest {} front) (back.take j)).depth
          = (nest {} (back.take j)).depth := by
        have hslash := cut.back
        cases back with
        | nil => exact ⟨.nil _, by simpa [nest] using hzero⟩
        | cons t back =>
          refine ⟨hback.restart hzero hslash, ?_⟩
          cases j with
          | zero => exact hzero
          | succ j => rw [List.take_succ_cons, nest_cons, nest_cons, Nesting.step_slash hzero hslash]
      rw [hrestart.2]
      exact spelledPath.readBefore hrestart.1 (fun hside => by cases hside) j

/-! ## Agreement -/

/-- The lexer of a text and the parser of its tokens agree on where rules are. -/
structure RulesAgree (text : String) (tokens : List Token) (t : Template) (zones : List Zone) : Prop where
  zoned : Zoned (slots t.parts) (texts t.parts) tokens zones
  /-- At each moment, the lexer's count tells where the first unfinished token stands. -/
  lexer : ∀ front back, text.toList = front ++ back → ∃ s : Scan, front.foldlM Scan.read {} = .ok s ∧
    s.done <+: tokens ∧ s.depth = (nest {} s.done).depth ∧
      (0 < s.depth ↔ zones[s.done.length]?.any Zone.isDeep = true)
  /-- Before each token, the parser is as deep in rules as the tokens before it have led the lexer. -/
  parser : ∀ k ≤ tokens.length, ∃ b, readBefore tokens k = .ok b ∧
    b.awaiting.depth = (nest {} (tokens.take k)).depth ∧
      (0 < b.awaiting.depth ↔ zones[k]?.any Zone.isDeep = true)
  stop : ∀ s : Scan, text.toList.foldlM Scan.read {} = .ok s → s.depth = 0
  /-- Quoted strings stand inside rules, where each is a parameter. -/
  quoted : (∀ t z, (t, z) ∈ tokens.zip zones → t.kind = .quotedString → z = .inside) ∧
    (quotedParams tokens).Sublist ((slots t.parts).flatMap Slot.params)
  /-- A quote that the lexer meets outside rules is in a text of the template. -/
  quotes : ∀ front quote back s, text.toList = front ++ quote :: back → isQuote quote = true →
    front.foldlM Scan.read {} = .ok s → s.depth = 0 → ∃ before inside behind after,
      tokens = before ++ ⟨.text, String.ofList (inside ++ quote :: behind)⟩ :: after ∧
        lex (String.ofList front) = .ok (before ++ textTokens inside) ∧
        zones[before.length]? = some .part ∧
        String.ofList (inside ++ quote :: behind) ∈ texts t.parts

theorem Spelled.getElem? {n : Nesting} {tokens : List Token} (h : Spelled n tokens) {k : Nat} {t : Token}
    (ht : tokens[k]? = some t) : t.Spelled (nest n (tokens.take k)) := by
  induction h generalizing k with
  | nil => cases ht
  | cons h hrest ih =>
    cases k with
    | zero => exact Option.some.inj ht ▸ h
    | succ k => exact ih ht

section

variable {vars : List Slot} {strings : List String} {tokens : List Token} {zones : List Zone}

theorem Zoned.depth_start (h : Zoned vars strings tokens zones) (k : Nat) :
    0 < (nest {} (tokens.take k)).depth ↔ zones[k]?.any Zone.isDeep = true :=
  h.depth rfl (fun h => by cases h) k

theorem Zoned.depth_end (h : Zoned vars strings tokens zones) : (nest {} tokens).depth = 0 := by
  have hlast := h.depth_start tokens.length
  rw [List.take_length, List.getElem?_eq_none (Nat.le_of_eq h.length)] at hlast
  exact Nat.eq_zero_of_not_pos fun hpos => Bool.false_ne_true (hlast.mp hpos)

/-- The lexer makes quoted strings only where its count is positive. -/
theorem Zoned.inside_of_quoted (h : Zoned vars strings tokens zones) (hspelled : Spelled {} tokens) {t : Token}
    {z : Zone} (ht : (t, z) ∈ tokens.zip zones) (hkind : t.kind = .quotedString) : z = .inside := by
  obtain ⟨k, hk⟩ := List.mem_iff_getElem?.mp ht
  obtain ⟨htoken, hzone⟩ := List.getElem?_zip_eq_some.mp hk
  have hpos : 0 < (nest {} (tokens.take k)).depth := by
    have hspelled := hspelled.getElem? htoken
    cases hspelled with
    | quotedString value h => exact h
    | _ => cases hkind
  have hdeep := (h.depth_start k).mp hpos
  rw [hzone] at hdeep
  cases z with
  | inside => rfl
  | closing => cases hkind.symm.trans (h.kind ht (Or.inr rfl))
  | part | opening => cases hdeep

/-- A text token where the lexer's count is zero is a text of the template. -/
theorem Zoned.part_of_text {before after : List Token} {value : String}
    (h : Zoned vars strings (before ++ ⟨.text, value⟩ :: after) zones) (hbefore : (nest {} before).depth = 0) :
    zones[before.length]? = some .part ∧ value ∈ strings := by
  obtain ⟨z, hz⟩ : ∃ z, zones[before.length]? = some z :=
    ⟨_, List.getElem?_eq_getElem (by rw [h.length]; simp)⟩
  have hmem : (⟨.text, value⟩, z) ∈ (before ++ ⟨.text, value⟩ :: after).zip zones :=
    List.mem_iff_getElem?.mpr ⟨before.length, List.getElem?_zip_eq_some.mpr ⟨by simp, hz⟩⟩
  have hdeep := h.depth_start before.length
  rw [List.take_left' rfl, hbefore, hz] at hdeep
  cases z with
  | part => exact ⟨hz, h.mem_strings hmem rfl⟩
  | opening => cases h.kind hmem (Or.inl rfl)
  | inside | closing => exact absurd (hdeep.mpr rfl) (Nat.lt_irrefl 0)

end

/-- Where a template is lexed and parsed, the lexer's count of parentheses is positive exactly where the
parser reads the rules of a variable. -/
theorem parser_follows_lexer {text : String} {tokens : List Token} {t : Template}
    (hlex : lex text = .ok tokens) (hparse : parse (TokenStream.closed tokens) = .ok t) :
    ∃ zones, RulesAgree text tokens t zones := by
  have hspelled := lex_spelled hlex
  have hby : t.SpelledBy tokens := by
    rw [parse_ok_iff, takeWhile_closed,
      List.takeWhile_eq_self_iff.mpr fun t ht => decide_eq_true (hspelled.kind_ne_eof t ht)] at hparse
    exact hparse
  obtain ⟨zones, hzones⟩ := hby.zoned
  have hquoted : ∀ t z, (t, z) ∈ tokens.zip zones → t.kind = .quotedString → z = .inside :=
    fun t z => hzones.inside_of_quoted hspelled
  refine ⟨zones, hzones, ?_, ?_, ?_, ⟨hquoted, hzones.quotedParams hquoted⟩, ?_⟩
  · intro front back hcs
    obtain ⟨s, hs, hsound, hrun⟩ := exists_scan hlex hcs
    have hdone := Scan.run_keeps hrun
    refine ⟨s, hs, hdone, hsound.depth, ?_⟩
    rw [hsound.depth, ← hzones.depth_start, ← List.prefix_iff_eq_take.mp hdone]
  · intro k hk
    obtain ⟨b, hread, hb⟩ := hby.readBefore hspelled k
    exact ⟨b, hread, hb, by rw [hb, hzones.depth_start]⟩
  · intro s hs
    obtain ⟨s', hs', hsound, hrun⟩ := exists_scan hlex (List.append_nil _).symm
    cases Except.ok.inj (hs.symm.trans hs')
    rw [hsound.finish_depth hrun, hzones.depth_end]
  · intro front quote back s hcs mark hs hzero
    obtain ⟨before, inside, behind, after, rfl, hfront, hbefore⟩ := quote_in_text hlex hcs mark hs hzero
    obtain ⟨hzone, hmem⟩ := hzones.part_of_text hbefore
    exact ⟨before, inside, behind, after, rfl, hfront, hzone, hmem⟩

/-- Quotes around a text of the path, and around a parameter. -/
theorem rulesAgree_quotes : ∃ zones, RulesAgree "/'a'/:v(in('x'))"
    [⟨.punctuation, "/"⟩, ⟨.text, "'a'"⟩, ⟨.punctuation, "/"⟩, ⟨.var, "v"⟩, ⟨.punctuation, "("⟩,
      ⟨.text, "in"⟩, ⟨.punctuation, "("⟩, ⟨.quotedString, "x"⟩, ⟨.punctuation, ")"⟩,
      ⟨.punctuation, ")"⟩]
    ⟨none, [.delimiter, .text "'a'", .delimiter, .var ⟨"v", [⟨"in", some [.str "x"]⟩]⟩]⟩ zones :=
  parser_follows_lexer (by decide) (by rfl)

end UriRouting

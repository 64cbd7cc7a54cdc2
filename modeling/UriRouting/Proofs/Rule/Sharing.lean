import UriRouting.Proofs.Template.Tokens
import UriRouting.Proofs.Trie.Keys
/-!
Rules whose parameters are the same.

A variable is put under a key that is the same as its own, and from then on the rules of that key are
asked. Parameters are compared as numbers, while rules use them in three ways: as they are, as numbers
and as texts. The three agree but for one case: the two zeros are the same, and their texts differ. It
takes a rule that compares values with texts to notice, which `accepts_eq_iff` says of the rules of the
default factory.
-/

namespace UriRouting

open Numeric

/-! ## Parameters -/

theorem eq_or_zeros_of_equal {x y : Binary64} (h : x.equal y = true) :
    x = y ∨ ∃ b c, x = .signed b 0 ∧ y = .signed c 0 := by
  cases x with
  | nan => cases h
  | signed b m =>
    cases y with
    | nan => cases h
    | signed c n =>
      simp only [Binary64.equal, Binary64.rank?, decide_eq_true_eq] at h
      have hplace : m = n ∧ (b = c ∨ m = 0) := by
        cases b <;> cases c <;> simp at h ⊢ <;> omega
      obtain ⟨rfl, rfl | rfl⟩ := hplace
      · exact Or.inl rfl
      · exact Or.inr ⟨b, c, rfl, rfl⟩

/-- Parameters that are the same are equal, unless both are zeros. -/
theorem Param.eq_or_zeros {p q : Param} (h : p.same q = true) :
    p = q ∨ ∃ b c, p = .float (.signed b 0) ∧ q = .float (.signed c 0) := by
  cases p with
  | int i =>
    cases q with
    | int j => exact Or.inl (congrArg Param.int (of_decide_eq_true h))
    | float y => cases h
    | str t => cases h
  | str s =>
    cases q with
    | int j => cases h
    | float y => cases h
    | str t => exact Or.inl (congrArg Param.str (of_decide_eq_true h))
  | float x =>
    cases q with
    | int j => cases h
    | str t => cases h
    | float y =>
      obtain rfl | ⟨b, c, rfl, rfl⟩ := eq_or_zeros_of_equal h
      · exact Or.inl rfl
      · exact Or.inr ⟨b, c, rfl, rfl⟩

/-- Without the negative zero parameters that are the same are equal. -/
theorem Param.eq_of_same {p q : Param} (hp : p ≠ .float (.signed true 0)) (hq : q ≠ .float (.signed true 0))
    (h : p.same q = true) : p = q := by
  obtain heq | ⟨negative, negative', rfl, rfl⟩ := Param.eq_or_zeros h
  · exact heq
  · cases negative with
    | true => exact absurd rfl hp
    | false =>
      cases negative' with
      | true => exact absurd rfl hq
      | false => rfl

/-! ### As numbers -/

theorem boundOf_eq_ok {p : Param} {x : Binary64} : Rule.boundOf p = .ok x ↔ p.toBinary64? = some x := by
  rw [Rule.boundOf]
  cases p.toBinary64? <;> simp

/-- As numbers, parameters that are the same have one place. -/
theorem rank?_eq_of_same {p q : Param} {x y : Binary64} (h : p.same q = true)
    (hx : Rule.boundOf p = .ok x) (hy : Rule.boundOf q = .ok y) : x.rank? = y.rank? := by
  rw [boundOf_eq_ok] at hx hy
  obtain rfl | ⟨b, c, rfl, rfl⟩ := Param.eq_or_zeros h
  · rw [hx, Option.some.injEq] at hy
    rw [hy]
  · cases hx
    cases hy
    cases b <;> cases c <;> rfl

theorem accepts_between_congr {low low' high high' : Binary64} (hlow : low.rank? = low'.rank?)
    (hhigh : high.rank? = high'.rank?) (inclusive : Bool) (value : String) :
    (Rule.between low high inclusive).accepts value
      = (Rule.between low' high' inclusive).accepts value := by
  simp only [Rule.accepts, Binary64.le, Binary64.lt, hlow, hhigh]

/-- A floating-point number is no flag. -/
theorem flagOf_eq_of_same {p q : Param} {b c : Bool} (h : p.same q = true)
    (hb : Rule.flagOf p = .ok b) (hc : Rule.flagOf q = .ok c) : b = c := by
  obtain rfl | ⟨_, _, rfl, rfl⟩ := Param.eq_or_zeros h
  · exact Except.ok.inj (hb.symm.trans hc)
  · cases hb

/-! ### As formats -/

section

open Calendar

theorem told_literals {items : List FormatItem} (h : ∀ i ∈ items, ∃ c, i = .literal c)
    {p p' : Progress}
    (hread : items.foldlM (fun (p : Progress) (i : FormatItem) => i.read? p.1 p.2) p = some p') :
    p'.1 = p.1 := by
  induction items generalizing p with
  | nil =>
    rw [List.foldlM_nil] at hread
    rw [← Option.some.inj hread]
  | cons i items ih =>
    obtain ⟨⟨c, rfl⟩, hitems⟩ := List.forall_mem_cons.mp h
    rw [List.foldlM_cons, Option.bind_eq_bind, Option.bind_eq_some_iff] at hread
    obtain ⟨next, hitem, hread⟩ := hread
    rw [ih hitems hread]
    obtain ⟨f, cs⟩ := p
    cases cs with
    | nil => cases hitem
    | cons d rest =>
      rw [FormatItem.read?] at hitem
      split at hitem
      · rw [← Option.some.inj hitem]
      · cases hitem

/-- Plain text tells nothing about a date. -/
theorem readFields?_literals {items : List FormatItem} (h : ∀ i ∈ items, ∃ c, i = .literal c)
    {text : String} {f : Fields} (hread : readFields? items text = some f) : f = ⟨[]⟩ := by
  unfold readFields? at hread
  dsimp only at hread
  split at hread
  · next hp =>
    rw [← Option.some.inj hread]
    exact told_literals h hp
  · cases hread

end

/-- The text of a zero is a format that no date has. -/
theorem isDate_zero (b : Bool) (value : String) :
    Calendar.isDate (Param.float (.signed b 0)).text value = false := by
  have hnone : ∀ format items, Calendar.FormatItem.parse? format = some items →
      (∀ i ∈ items, ∃ c, i = .literal c) → Calendar.isDate (String.ofList format) value = false := by
    intro format items hparse hitems
    unfold Calendar.isDate
    rw [String.toList_ofList, hparse]
    dsimp only
    cases hread : Calendar.readFields? items value with
    | none => rfl
    | some f =>
      rw [readFields?_literals hitems hread]
      decide
  cases b with
  | false => exact hnone ['0'] [.literal '0'] rfl (by simp)
  | true => exact hnone ['-', '0'] [.literal '-', .literal '0'] rfl (by simp)

theorem isDate_eq_of_same {p q : Param} (h : p.same q = true) (value : String) :
    Calendar.isDate p.text value = Calendar.isDate q.text value := by
  obtain rfl | ⟨b, c, rfl, rfl⟩ := Param.eq_or_zeros h
  · rfl
  · rw [isDate_zero, isDate_zero]

/-! ## Constructors -/

/-- A constructor makes rules that accept the same values from parameters that are the same. -/
def Congruent (make : RuleConstructor) : Prop :=
  ∀ ps qs a b, pairwiseSame Param.same ps qs = true → make ps = .ok a → make qs = .ok b →
    ∀ value, a.accepts value = b.accepts value

theorem congruent_withoutParams (name : String) (rule : Rule) :
    Congruent (Rule.withoutParams name rule) := by
  intro ps qs a b _ ha hb value
  have hmade : ∀ {ps c}, Rule.withoutParams name rule ps = .ok c → c = rule := by
    intro ps c h
    cases ps with
    | nil => exact (Except.ok.inj h).symm
    | cons p ps => cases h
  rw [hmade ha, hmade hb]

/-- A range comes from two bounds and perhaps a flag. -/
theorem ofRange_eq_ok {ps : List Param} {a : Rule} (h : Rule.ofRange ps = .ok a) :
    ∃ low high flags x y inclusive, ps = low :: high :: flags ∧ Rule.boundOf low = .ok x ∧
      Rule.boundOf high = .ok y ∧ a = .between x y inclusive ∧
      (flags = [] ∧ inclusive = true ∨ ∃ flag, flags = [flag] ∧ Rule.flagOf flag = .ok inclusive) := by
  unfold Rule.ofRange at h
  split at h
  · next low high =>
    obtain ⟨x, hlow, h⟩ := except_bind_ok h
    obtain ⟨y, hhigh, h⟩ := except_bind_ok h
    exact ⟨low, high, [], x, y, true, rfl, hlow, hhigh, (Except.ok.inj h).symm, Or.inl ⟨rfl, rfl⟩⟩
  · next low high flag =>
    obtain ⟨inclusive, hflag, h⟩ := except_bind_ok h
    obtain ⟨x, hlow, h⟩ := except_bind_ok h
    obtain ⟨y, hhigh, h⟩ := except_bind_ok h
    exact ⟨low, high, [flag], x, y, inclusive, rfl, hlow, hhigh, (Except.ok.inj h).symm,
      Or.inr ⟨flag, rfl, hflag⟩⟩
  · cases h

theorem congruent_ofRange : Congruent Rule.ofRange := by
  intro ps qs a b hsame ha hb value
  obtain ⟨low, high, flags, x, y, inclusive, rfl, hx, hy, rfl, hflags⟩ := ofRange_eq_ok ha
  obtain ⟨low', high', flags', x', y', inclusive', rfl, hx', hy', rfl, hflags'⟩ := ofRange_eq_ok hb
  simp only [pairwiseSame, Bool.and_eq_true] at hsame
  obtain ⟨hlow, hhigh, hsame⟩ := hsame
  have hinclusive : inclusive = inclusive' := by
    obtain ⟨rfl, rfl⟩ | ⟨flag, rfl, hflag⟩ := hflags
    · obtain ⟨-, rfl⟩ | ⟨flag', rfl, -⟩ := hflags'
      · rfl
      · cases hsame
    · obtain ⟨rfl, -⟩ | ⟨flag', rfl, hflag'⟩ := hflags'
      · cases hsame
      · rw [pairwiseSame, Bool.and_eq_true] at hsame
        exact flagOf_eq_of_same hsame.1 hflag hflag'
  rw [hinclusive]
  exact accepts_between_congr (rank?_eq_of_same hlow hx hx') (rank?_eq_of_same hhigh hy hy') _ value

theorem congruent_ofPattern : Congruent Rule.ofPattern := by
  intro ps qs a b hsame ha hb value
  unfold Rule.ofPattern at ha hb
  split at ha
  · next text =>
    split at hb
    · next text' =>
      simp only [pairwiseSame, Bool.and_true] at hsame
      rw [show text = text' from of_decide_eq_true hsame] at ha
      rw [Except.ok.inj (ha.symm.trans hb)]
    · cases hb
  · cases ha

theorem congruent_ofFormats : Congruent Rule.ofFormats := by
  intro ps qs a b hsame ha hb value
  have hmade : ∀ {ps c}, Rule.ofFormats ps = .ok c → c = .date (ps.map Param.text) := by
    intro ps c h
    cases ps with
    | nil => cases h
    | cons p ps => exact (Except.ok.inj h).symm
  rw [hmade ha, hmade hb]
  show ((ps.map Param.text).any fun format => Calendar.isDate format value)
    = (qs.map Param.text).any fun format => Calendar.isDate format value
  clear ha hb
  induction ps generalizing qs with
  | nil =>
    cases qs with
    | nil => rfl
    | cons q qs => cases hsame
  | cons p ps ih =>
    cases qs with
    | nil => cases hsame
    | cons q qs =>
      rw [pairwiseSame, Bool.and_eq_true] at hsame
      rw [List.map_cons, List.map_cons, List.any_cons, List.any_cons, isDate_eq_of_same hsame.1,
        ih qs hsame.2]

/-! ## The default factory -/

theorem default_entries : RuleFactory.default.constructors.entries = [
    ("alpha", Rule.withoutParams "alpha" .alpha),
    ("alphanumeric", Rule.withoutParams "alphanumeric" .alphanumeric),
    ("between", Rule.ofRange),
    ("date", Rule.ofFormats),
    ("in", fun params => .ok (.oneOf (params.map Param.text))),
    ("int", Rule.withoutParams "int" .integer),
    ("notIn", fun params => .ok (.noneOf (params.map Param.text))),
    ("numeric", Rule.withoutParams "numeric" .numeric),
    ("regex", Rule.ofPattern),
    ("uuidv4", Rule.withoutParams "uuidv4" .uuidV4)] := by rfl

/-- Whether a rule compares values with the texts of its parameters. -/
def RuleSpec.comparesTexts (s : RuleSpec) : Bool := s.name = "in" || s.name = "notIn"

/-- Two rules that compare values with texts have the same ones. -/
def RuleSpec.ListsAlike (a b : RuleSpec) : Prop :=
  a.comparesTexts = true → ∀ text, text ∈ a.params.map Param.text ↔ text ∈ b.params.map Param.text

instance (a b : RuleSpec) : Decidable (a.ListsAlike b) :=
  decidable_of_iff (a.comparesTexts = true →
      a.params.map Param.text ⊆ b.params.map Param.text ∧
      b.params.map Param.text ⊆ a.params.map Param.text) <|
    forall_congr' fun _ => ⟨fun h _ => ⟨fun ht => h.1 ht, fun ht => h.2 ht⟩,
      fun h => ⟨fun text ht => (h text).mp ht, fun text ht => (h text).mpr ht⟩⟩

/-- Without the negative zero there is one text to a number. -/
theorem RuleSpec.listsAlike_of_same {a b : RuleSpec} (hsame : a.same b = true)
    (ha : .float (.signed true 0) ∉ a.params) (hb : .float (.signed true 0) ∉ b.params) :
    a.ListsAlike b := by
  rw [RuleSpec.same, Bool.and_eq_true] at hsame
  have hparams : a.params = b.params :=
    eq_of_pairwiseSame (fun p hp q hq => Param.eq_of_same (ne_of_mem_of_not_mem hp ha)
      (ne_of_mem_of_not_mem hq hb)) hsame.2
  intro _ text
  rw [hparams]

theorem RuleFactory.create_eq_ok {f : RuleFactory} {name : String} {params : List Param} {rule : Rule}
    (h : f.create name params = .ok rule) :
    ∃ make, f.constructors.find? name = some make ∧ make params = .ok rule := by
  rw [create] at h
  split at h
  · cases h
  · next make hfind =>
    refine ⟨make, hfind, ?_⟩
    cases hmake : make params with
    | error e =>
      rw [hmake] at h
      cases h
    | ok made =>
      rw [hmake] at h
      rw [Except.ok.inj h]

/-- Lists of values are told apart by the values they hold. -/
theorem contains_eq_iff {l m : List String} :
    (∀ value, l.contains value = m.contains value) ↔ ∀ value, value ∈ l ↔ value ∈ m := by
  refine forall_congr' fun value => ?_
  rw [Bool.eq_iff_iff, List.contains_iff_mem, List.contains_iff_mem]

/-- Rules of the default factory whose specifications are the same accept the same values exactly if
they have the same texts to compare values with. -/
theorem RuleSpec.accepts_eq_iff {a b : RuleSpec} {rule rule' : Rule} (hsame : a.same b = true)
    (ha : RuleFactory.default.create a.name a.params = .ok rule)
    (hb : RuleFactory.default.create b.name b.params = .ok rule') :
    (∀ value, rule.accepts value = rule'.accepts value) ↔ a.ListsAlike b := by
  obtain ⟨name, ps⟩ := a
  obtain ⟨name', qs⟩ := b
  rw [RuleSpec.same, Bool.and_eq_true, decide_eq_true_eq] at hsame
  obtain ⟨hname, hparams⟩ := hsame
  dsimp only at hname hparams ha hb
  subst hname
  obtain ⟨make, hfind, hrule⟩ := RuleFactory.create_eq_ok ha
  obtain ⟨make', hfind', hrule'⟩ := RuleFactory.create_eq_ok hb
  obtain rfl : make = make' := Option.some.inj (hfind.symm.trans hfind')
  have hother : Congruent make → RuleSpec.comparesTexts ⟨name, ps⟩ = false →
      ((∀ value, rule.accepts value = rule'.accepts value) ↔
        RuleSpec.ListsAlike ⟨name, ps⟩ ⟨name, qs⟩) := by
    intro hcongruent hname
    refine ⟨fun _ h => ?_, fun _ => hcongruent ps qs rule rule' hparams hrule hrule'⟩
    rw [hname] at h
    cases h
  have hmem : (name, make) ∈ RuleFactory.default.constructors.entries := by
    obtain ⟨before, after, hentries, -⟩ := List.lookup_eq_some_iff.mp hfind
    rw [hentries]
    exact List.mem_append_right before List.mem_cons_self
  simp only [default_entries, List.mem_cons, Prod.mk.injEq, List.not_mem_nil, or_false] at hmem
  -- The rules in the order of their names. All but `in` and `notIn` are made by congruent constructors.
  obtain ⟨rfl, rfl⟩ | ⟨rfl, rfl⟩ | ⟨rfl, rfl⟩ | ⟨rfl, rfl⟩ | ⟨rfl, rfl⟩ |
    ⟨rfl, rfl⟩ | ⟨rfl, rfl⟩ | ⟨rfl, rfl⟩ | ⟨rfl, rfl⟩ | ⟨rfl, rfl⟩ := hmem
  · exact hother (congruent_withoutParams _ _) rfl
  · exact hother (congruent_withoutParams _ _) rfl
  · exact hother congruent_ofRange rfl
  · exact hother congruent_ofFormats rfl
  · rw [← Except.ok.inj hrule, ← Except.ok.inj hrule']
    exact contains_eq_iff.trans ⟨fun h _ => h, fun h => h rfl⟩
  · exact hother (congruent_withoutParams _ _) rfl
  · rw [← Except.ok.inj hrule, ← Except.ok.inj hrule']
    refine Iff.trans (forall_congr' fun value => ?_)
      (contains_eq_iff.trans ⟨fun h _ => h, fun h => h rfl⟩)
    exact Bool.not_inj_iff
  · exact hother (congruent_withoutParams _ _) rfl
  · exact hother congruent_ofPattern rfl
  · exact hother (congruent_withoutParams _ _) rfl

end UriRouting

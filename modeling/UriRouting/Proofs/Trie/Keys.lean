import UriRouting.Proofs.Trie.History
import UriRouting.Trie.Compile
/-!
When keys are the same.

Keys are compared by names, texts and the specifications of their rules. Rules themselves are not
compared, but one factory makes one rule from a specification. Parameters compare as numbers do, so
that `nan` is not the same as itself and the two zeros are the same. Where neither comes up, being the
same is being equal, which `sharp_of_lawful` says of keys.
-/

namespace UriRouting

theorem eq_of_pairwiseSame {α : Type} {same : α → α → Bool} {as bs : List α}
    (h : ∀ a ∈ as, ∀ b ∈ bs, same a b = true → a = b) (hsame : pairwiseSame same as bs = true) :
    as = bs := by
  induction as generalizing bs with
  | nil =>
    cases bs with
    | nil => rfl
    | cons b bs => cases hsame
  | cons a as ih =>
    cases bs with
    | nil => cases hsame
    | cons b bs =>
      rw [pairwiseSame, Bool.and_eq_true] at hsame
      rw [h a List.mem_cons_self b List.mem_cons_self hsame.1, ih (fun a' ha' b' hb' =>
        h a' (List.mem_cons_of_mem a ha') b' (List.mem_cons_of_mem b hb')) hsame.2]

theorem pairwiseSame_self {α : Type} {same : α → α → Bool} {as : List α}
    (h : ∀ a ∈ as, same a a = true) : pairwiseSame same as as = true := by
  induction as with
  | nil => rfl
  | cons a as ih =>
    rw [pairwiseSame, h a List.mem_cons_self, ih fun a' ha' => h a' (List.mem_cons_of_mem a ha')]
    rfl

theorem pairwiseSame_comm {α : Type} {same : α → α → Bool}
    (h : ∀ a b, same a b = same b a) (as bs : List α) : pairwiseSame same as bs = pairwiseSame same bs as := by
  induction as generalizing bs with
  | nil => cases bs <;> rfl
  | cons a as ih =>
    cases bs with
    | nil => rfl
    | cons b bs => rw [pairwiseSame, pairwiseSame, h, ih]

/-! ## Both ways

Comparing keys does not depend on which one comes first. -/

theorem equal_comm (x y : Numeric.Binary64) : x.equal y = y.equal x := by
  unfold Numeric.Binary64.equal
  cases x.rank? with
  | none => cases y.rank? <;> rfl
  | some i =>
    cases y.rank? with
    | none => rfl
    | some j => exact decide_eq_decide.mpr eq_comm

theorem Param.same_comm (p q : Param) : p.same q = q.same p := by
  cases p with
  | int i => cases q <;> simp [Param.same, eq_comm]
  | float x => cases q <;> simp [Param.same, equal_comm]
  | str s => cases q <;> simp [Param.same, eq_comm]

theorem RuleSpec.same_comm (a b : RuleSpec) : a.same b = b.same a := by
  rw [RuleSpec.same, RuleSpec.same, pairwiseSame_comm Param.same_comm]
  congr 1
  exact decide_eq_decide.mpr eq_comm

theorem Variable.same_comm (a b : Variable) : a.same b = b.same a := by
  rw [Variable.same, Variable.same, pairwiseSame_comm RuleSpec.same_comm]
  congr 1
  exact decide_eq_decide.mpr eq_comm

theorem SegmentPart.same_comm (a b : SegmentPart) : a.same b = b.same a := by
  cases a with
  | literal text =>
    cases b with
    | literal text' => exact decide_eq_decide.mpr eq_comm
    | var v => rfl
  | var v =>
    cases b with
    | literal text => rfl
    | var v' => exact v.same_comm v'

theorem SegmentPattern.same_comm (a b : SegmentPattern) : a.same b = b.same a :=
  pairwiseSame_comm SegmentPart.same_comm a.parts b.parts

/-! ## Parameters -/

/-- Among these parameters only equal ones are the same. -/
def Lawful (params : List Param) : Prop := ∀ p ∈ params, ∀ q ∈ params, (p.same q = true ↔ p = q)

/-- Parameters that are the same are equal. One need not be the same as itself. -/
def Separate (params : List Param) : Prop := ∀ p ∈ params, ∀ q ∈ params, p.same q = true → p = q

theorem Lawful.separate {params : List Param} (h : Lawful params) : Separate params :=
  fun p hp q hq => (h p hp q hq).mp

/-- Whether a parameter is neither `nan` nor the negative zero. -/
def Param.isPlain : Param → Bool
  | .float .nan => false
  | .float (.signed true 0) => false
  | _ => true

theorem equal_iff_eq {x y : Numeric.Binary64} (hx : (Param.float x).isPlain = true)
    (hy : (Param.float y).isPlain = true) : x.equal y = true ↔ x = y := by
  cases x with
  | nan => cases hx
  | signed negative position =>
    cases y with
    | nan => cases hy
    | signed negative' position' =>
      simp only [Numeric.Binary64.equal, Numeric.Binary64.rank?, decide_eq_true_eq,
        Numeric.Binary64.signed.injEq]
      cases negative <;> cases negative' <;> cases position <;> cases position' <;>
        simp_all [Param.isPlain] <;> omega

theorem lawful_of_plain {params : List Param} (h : ∀ p ∈ params, p.isPlain = true) :
    Lawful params := by
  intro p hp q hq
  have hp' := h p hp
  have hq' := h q hq
  cases p with
  | int i => cases q <;> simp [Param.same]
  | str s => cases q <;> simp [Param.same]
  | float x =>
    cases q with
    | int i => simp [Param.same]
    | str s => simp [Param.same]
    | float y => rw [Param.same, equal_iff_eq hp' hq', Param.float.injEq]

/-! ## Variables and keys -/

def Variable.params (v : Variable) : List Param := v.checks.flatMap fun check => check.1.params

/-- The rules of a variable are those that a factory makes from their specifications. -/
def Variable.MadeBy (f : RuleFactory) (v : Variable) : Prop :=
  ∀ check ∈ v.checks, f.create check.1.name check.1.params = .ok check.2

def Key.vars : Key → List Variable
  | .literal _ => []
  | .pattern p => p.vars

def Key.params (k : Key) : List Param := k.vars.flatMap Variable.params

/-- The rules in a key are those that a factory makes from their specifications. -/
def Key.MadeBy (f : RuleFactory) (k : Key) : Prop := ∀ v ∈ k.vars, v.MadeBy f

section

variable {params : List Param}

theorem Variable.mem_params {v : Variable} {check : RuleSpec × Rule} {p : Param}
    (h : check ∈ v.checks) (hp : p ∈ check.1.params) : p ∈ v.params :=
  List.mem_flatMap.mpr ⟨check, h, hp⟩

theorem eq_of_spec_same (hseparate : Separate params) {a b : RuleSpec}
    (ha : ∀ p ∈ a.params, p ∈ params) (hb : ∀ p ∈ b.params, p ∈ params) (h : a.same b = true) :
    a = b := by
  obtain ⟨name, ps⟩ := a
  obtain ⟨name', ps'⟩ := b
  rw [RuleSpec.same, Bool.and_eq_true, decide_eq_true_eq] at h
  rw [show name = name' from h.1,
    show ps = ps' from eq_of_pairwiseSame (fun p hp q hq => hseparate p (ha p hp) q (hb q hq)) h.2]

theorem checks_eq {f : RuleFactory} {as bs : List (RuleSpec × Rule)}
    (ha : ∀ check ∈ as, f.create check.1.name check.1.params = .ok check.2)
    (hb : ∀ check ∈ bs, f.create check.1.name check.1.params = .ok check.2)
    (h : as.map (·.1) = bs.map (·.1)) : as = bs := by
  induction as generalizing bs with
  | nil => exact (List.map_eq_nil_iff.mp h.symm).symm
  | cons a as ih =>
    cases bs with
    | nil => cases h
    | cons b bs =>
      obtain ⟨hspec, hrest⟩ := List.cons.inj h
      have hrule := ha a List.mem_cons_self
      rw [show a.1 = b.1 from hspec, hb b List.mem_cons_self, Except.ok.injEq] at hrule
      rw [Prod.ext hspec hrule.symm, ih (fun c hc => ha c (List.mem_cons_of_mem a hc))
        (fun c hc => hb c (List.mem_cons_of_mem b hc)) hrest]

theorem eq_of_variable_same (hseparate : Separate params) {f : RuleFactory} {a b : Variable}
    (ha : a.MadeBy f) (hb : b.MadeBy f) (hpa : ∀ p ∈ a.params, p ∈ params)
    (hpb : ∀ p ∈ b.params, p ∈ params) (h : a.same b = true) : a = b := by
  obtain ⟨name, checks⟩ := a
  obtain ⟨name', checks'⟩ := b
  rw [Variable.same, Bool.and_eq_true, decide_eq_true_eq] at h
  have hspecs : checks.map (·.1) = checks'.map (·.1) := by
    refine eq_of_pairwiseSame (fun s hs s' hs' => ?_) h.2
    obtain ⟨check, hcheck, rfl⟩ := List.mem_map.mp hs
    obtain ⟨check', hcheck', rfl⟩ := List.mem_map.mp hs'
    exact eq_of_spec_same hseparate (fun p hp => hpa p (Variable.mem_params hcheck hp))
      fun p hp => hpb p (Variable.mem_params hcheck' hp)
  rw [show name = name' from h.1, show checks = checks' from checks_eq ha hb hspecs]

theorem var_mem_vars {p : SegmentPattern} {v : Variable} (h : .var v ∈ p.parts) :
    v ∈ (Key.pattern p).vars := List.mem_filterMap.mpr ⟨_, h, rfl⟩

theorem eq_of_pattern_same (hseparate : Separate params) {f : RuleFactory} {a b : SegmentPattern}
    (ha : (Key.pattern a).MadeBy f) (hb : (Key.pattern b).MadeBy f)
    (hpa : ∀ p ∈ (Key.pattern a).params, p ∈ params) (hpb : ∀ p ∈ (Key.pattern b).params, p ∈ params)
    (h : a.same b = true) : a = b := by
  have hparts : a.parts = b.parts := by
    refine eq_of_pairwiseSame (fun part hpart part' hpart' hsame => ?_) h
    cases part with
    | literal text =>
      cases part' with
      | literal text' => rw [of_decide_eq_true hsame]
      | var v => cases hsame
    | var v =>
      cases part' with
      | literal text => cases hsame
      | var v' =>
        rw [eq_of_variable_same hseparate (ha v (var_mem_vars hpart)) (hb v' (var_mem_vars hpart'))
          (fun p hp => hpa p (List.mem_flatMap.mpr ⟨v, var_mem_vars hpart, hp⟩))
          (fun p hp => hpb p (List.mem_flatMap.mpr ⟨v', var_mem_vars hpart', hp⟩)) hsame]
  rw [show a = ⟨a.parts⟩ from rfl, hparts]

/-- Among the keys of `S`, those that are the same are equal. -/
def Faithful (S : Key → Prop) : Prop := ∀ k, S k → ∀ k', S k' → k.same k' = true → k = k'

/-- Keys with rules of one factory are the same only when they are equal, if that holds of their
parameters. -/
theorem faithful_of_separate (hseparate : Separate params) (f : RuleFactory) :
    Faithful fun k => k.MadeBy f ∧ ∀ p ∈ k.params, p ∈ params := by
  intro k hk k' hk' h
  obtain ⟨hk, hpk⟩ := hk
  obtain ⟨hk', hpk'⟩ := hk'
  cases k with
  | literal text =>
    cases k' with
    | literal text' => rw [of_decide_eq_true h]
    | pattern p => cases h
  | pattern p =>
    cases k' with
    | literal text => cases h
    | pattern p' => rw [eq_of_pattern_same hseparate hk hk' hpk hpk' h]

theorem Key.same_self {k : Key} (h : ∀ p ∈ k.params, p.same p = true) : k.same k = true := by
  cases k with
  | literal text => exact decide_eq_true rfl
  | pattern p =>
    refine pairwiseSame_self fun part hpart => ?_
    cases part with
    | literal text => exact decide_eq_true rfl
    | var v =>
      refine Bool.and_eq_true _ _ ▸ ⟨decide_eq_true rfl, pairwiseSame_self fun s hs => ?_⟩
      obtain ⟨check, hcheck, rfl⟩ := List.mem_map.mp hs
      refine Bool.and_eq_true _ _ ▸ ⟨decide_eq_true rfl, pairwiseSame_self fun q hq => h q ?_⟩
      exact List.mem_flatMap.mpr ⟨v, var_mem_vars hpart, Variable.mem_params hcheck hq⟩

/-- Keys with rules of one factory and lawful parameters are the same only when they are equal. -/
theorem sharp_of_lawful (hlawful : Lawful params) (f : RuleFactory) :
    Sharp fun k => k.MadeBy f ∧ ∀ p ∈ k.params, p ∈ params := by
  intro k hk k' hk'
  refine ⟨faithful_of_separate hlawful.separate f k hk k' hk', ?_⟩
  intro h
  subst h
  exact Key.same_self fun p hp => (hlawful p (hk.2 p hp) p (hk.2 p hp)).mpr rfl

end

end UriRouting

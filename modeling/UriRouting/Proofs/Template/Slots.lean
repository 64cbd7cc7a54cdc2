import UriRouting.Numeric.Binary64.Reading
import UriRouting.Proofs.Template.Grammar
/-!
The variables of a template, with the parameters of their rules.

A template writes numbers without a sign: `SpellsRow.unsigned`. So the negative zero, which is the same as
zero and has another text, is no parameter that a template names.
-/

namespace UriRouting

open Numeric

/-! ## Variables -/

section

variable {ν : Type}

mutual

/-- What stands for the variables of a part, those inside optional parts among them. -/
def slotsOfPart : Part ν → List ν
  | .delimiter | .text _ => []
  | .var v => [v]
  | .optional parts => slots parts

def slots : List (Part ν) → List ν
  | [] => []
  | p :: rest => slotsOfPart p ++ slots rest

end

theorem slots_append (parts parts' : List (Part ν)) : slots (parts ++ parts') = slots parts ++ slots parts' := by
  induction parts with
  | nil => rfl
  | cons p parts ih => rw [List.cons_append, slots, slots, ih, List.append_assoc]

end

/-- The parameters of all rules of a variable. -/
def Slot.params (slot : Slot) : List Param := slot.rules.flatMap fun call => call.params?.getD []

/-! ## Numbers -/

namespace Numeric.Binary64

theorem readDecimal_sign {negative sign : Bool} {cs : List Char} {position : Nat}
    (h : readDecimal negative cs = some (.signed sign position)) : sign = negative := by
  unfold readDecimal at h
  dsimp only at h
  -- With a point behind the digits, then without one.
  split at h
  all_goals
    split at h
    · cases h
    · obtain ⟨scale, -, h⟩ := Option.map_eq_some_iff.mp h
      cases h
      rfl

theorem readUnsigned_sign {negative sign : Bool} {cs : List Char} {position : Nat}
    (h : readUnsigned negative cs = some (.signed sign position)) : sign = negative := by
  unfold readUnsigned at h
  rcases Option.or_eq_some_iff.mp h with h | ⟨-, h⟩
  · exact readDecimal_sign h
  · unfold readName at h
    dsimp only at h
    split at h
    · cases h
      rfl
    · split at h
      · cases h
      · cases h

/-- A number is negative only by its sign. -/
theorem read?_sign {text : String} {position : Nat} (h : read? text = some (.signed true position)) :
    text.toList.head? = some '-' := by
  unfold read? at h
  split at h
  · next heq => rw [heq]; rfl
  · cases readUnsigned_sign h
  · cases readUnsigned_sign h

end Numeric.Binary64

/-- No number token is the negative zero, or any other negative number, without a sign. -/
theorem Token.number?_sign {t : Token} {position : Nat} (h : t.number? = some (.float (.signed true position))) :
    t.value.toList.head? = some '-' := by
  unfold number? at h
  split at h
  · cases h
  · split at h
    · obtain ⟨x, hread, h⟩ := Option.map_eq_some_iff.mp h
      split at h
      · split at h
        · cases h
        · cases h
          exact Binary64.read?_sign hread
      · cases h
        exact Binary64.read?_sign hread
    · split at h
      · cases h
      · obtain ⟨x, hread, h⟩ := Option.map_eq_some_iff.mp h
        cases h
        exact Binary64.read?_sign hread

theorem IsDigits.head?_ne {cs : List Char} (h : IsDigits cs) (rest : List Char) :
    (cs ++ rest).head? ≠ some '-' := by
  intro hsign
  obtain ⟨hne, hdigits⟩ := h
  cases cs with
  | nil => exact hne rfl
  | cons c cs =>
    cases hsign
    exact absurd (hdigits '-' List.mem_cons_self) (by decide)

/-- No token of a template stands for a negative number. -/
theorem Token.Spelled.unsigned {n : Nesting} {t : Token} (h : t.Spelled n) {position : Nat} :
    ¬ t.StandsFor (.float (.signed true position)) := by
  intro hstands
  cases hstands with
  | number kind value =>
    have hsign := Token.number?_sign value
    cases h with
    | digits hdigits =>
      rw [String.toList_ofList] at hsign
      exact hdigits.head?_ne [] ((List.append_nil _).symm ▸ hsign)
    | fraction hwhole =>
      rw [String.toList_ofList] at hsign
      exact hwhole.head?_ne _ hsign
    | text | punctuation | quotedString | var => cases kind

theorem Spelled.exists_of_mem {n : Nesting} {tokens : List Token} (h : Spelled n tokens) {t : Token}
    (ht : t ∈ tokens) : ∃ m, t.Spelled m := by
  induction h with
  | nil => cases ht
  | cons h _ ih =>
    rcases List.mem_cons.mp ht with rfl | ht
    · exact ⟨_, h⟩
    · exact ih ht

/-! ## Parameters -/

/-- Items in a list have tokens of the list. -/
theorem Listed.exists_item {γ : Type} {Item : γ → List Token → Prop} {xs : List γ} {tokens : List Token}
    (h : Listed Item xs tokens) : ∀ x ∈ xs, ∃ item, Item x item ∧ item ⊆ tokens := by
  induction h with
  | last spelled =>
    intro x hx
    rw [List.mem_singleton.mp hx]
    exact ⟨_, spelled, List.subset_append_left _ _⟩
  | more spelled _ _ ih =>
    intro x hx
    rcases List.mem_cons.mp hx with rfl | hx
    · exact ⟨_, spelled, List.subset_append_left _ _⟩
    · obtain ⟨item, hitem, hsubset⟩ := ih x hx
      exact ⟨item, hitem, fun t ht => List.mem_append_right _ (List.mem_cons_of_mem _ (hsubset ht))⟩

theorem SpellsCall.exists_token {call : RuleCall} {tokens : List Token} (h : SpellsCall call tokens) :
    ∀ p ∈ call.params?.getD [], ∃ t ∈ tokens, t.StandsFor p := by
  intro p hp
  cases h with
  | named name spelled =>
    cases spelled with
    | none => cases hp
    | some opening spelled =>
      cases spelled with
      | none => cases hp
      | some listed =>
        obtain ⟨item, ⟨t, rfl, hstands⟩, hsubset⟩ := listed.exists_item p hp
        exact ⟨t, List.mem_cons_of_mem _ (List.mem_cons_of_mem _ (hsubset List.mem_cons_self)), hstands⟩

theorem Labels.slots_eq {parts : List (Part Slot)} {cs : List Char} (h : Labels parts cs) :
    slots parts = [] := by
  induction h with
  | last => rfl
  | more _ _ ih => exact ih

/-- Tokens stand for all parameters of some variables. -/
def ParamsIn (tokens : List Token) (vars : List Slot) : Prop :=
  ∀ slot ∈ vars, ∀ p ∈ slot.params, ∃ t ∈ tokens, t.StandsFor p

section

variable {tokens tokens' : List Token} {vars vars' : List Slot}

theorem ParamsIn.mono (h : ParamsIn tokens vars) (hsubset : tokens ⊆ tokens') : ParamsIn tokens' vars := by
  intro slot hslot p hp
  obtain ⟨t, ht, hstands⟩ := h slot hslot p hp
  exact ⟨t, hsubset ht, hstands⟩

theorem ParamsIn.append (h : ParamsIn tokens vars) (h' : ParamsIn tokens vars') :
    ParamsIn tokens (vars ++ vars') := List.forall_mem_append.mpr ⟨h, h'⟩

theorem paramsIn_listed {rules : List RuleCall} (h : Listed SpellsCall rules tokens) (name : String) :
    ParamsIn tokens [⟨name, rules⟩] := by
  refine List.forall_mem_singleton.mpr fun p hp => ?_
  obtain ⟨call, hcall, hp⟩ := List.mem_flatMap.mp hp
  obtain ⟨item, hitem, hsubset⟩ := h.exists_item call hcall
  obtain ⟨t, ht, hstands⟩ := hitem.exists_token p hp
  exact ⟨t, hsubset ht, hstands⟩

end

/-- For each parameter of a row there is a token that stands for it. -/
theorem SpellsRow.params {side : Side} {nested behindVar : Bool} {parts : List (Part Slot)}
    {tokens : List Token} (h : SpellsRow side nested behindVar parts tokens) :
    ParamsIn tokens (slots parts) := by
  induction h with
  | nil => exact List.forall_mem_nil _
  | delimiter role rest ih => exact ih.mono (List.subset_cons_self _ _)
  | text role rest ih => exact ih.mono (List.subset_cons_self _ _)
  | labels role labels rest ih =>
    rw [slots_append, labels.slots_eq, List.nil_append]
    exact ih.mono (List.subset_cons_self _ _)
  | @var side nested t _ _ role bare rest ih =>
    have hbare : ParamsIn [] [⟨t.value, []⟩] := List.forall_mem_singleton.mpr (List.forall_mem_nil _)
    exact (hbare.mono (List.nil_subset _)).append (ih.mono (List.subset_cons_self _ _))
  | @ruled side nested t mark rules parts listed tokens role opening spelled rest ih =>
    have hlisted : listed ⊆ t :: mark :: (listed ++ tokens) := fun t ht => by simp [ht]
    have hrest : tokens ⊆ t :: mark :: (listed ++ tokens) := fun t ht => by simp [ht]
    exact ((paramsIn_listed spelled t.value).mono hlisted).append (ih.mono hrest)
  | @optionalPath nested behindVar t slash mark inner parts read tokens role start spelled closing rest
      ihinner ih =>
    have hread : read ⊆ t :: slash :: (read ++ mark :: tokens) := fun t ht => by simp [ht]
    have hrest : tokens ⊆ t :: slash :: (read ++ mark :: tokens) := fun t ht => by simp [ht]
    exact (ihinner.mono hread).append (ih.mono hrest)
  | @optionalHost nested behindVar t mark inner parts read tokens role spelled stop closing rest
      ihinner ih =>
    have hread : read ⊆ t :: (read ++ mark :: tokens) := fun t ht => by simp [ht]
    have hrest : tokens ⊆ t :: (read ++ mark :: tokens) := fun t ht => by simp [ht]
    exact (ihinner.mono hread).append (ih.mono hrest)

/-- No parameter in the tokens of a template is a negative number. -/
theorem SpellsRow.unsigned {side : Side} {nested behindVar : Bool} {parts : List (Part Slot)}
    {tokens : List Token} (h : SpellsRow side nested behindVar parts tokens)
    (hspelled : ∀ t ∈ tokens, ∃ n, t.Spelled n) {position : Nat} :
    ∀ slot ∈ slots parts, .float (.signed true position) ∉ slot.params := by
  intro slot hslot hp
  obtain ⟨t, ht, hstands⟩ := h.params slot hslot _ hp
  obtain ⟨n, ht⟩ := hspelled t ht
  exact ht.unsigned hstands

end UriRouting

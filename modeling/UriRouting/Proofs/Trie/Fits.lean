import Mathlib.Data.List.Chain
import Mathlib.Data.List.Forall2
import UriRouting.Proofs.Template.Texts
import UriRouting.Proofs.Text.LetterCase
import UriRouting.Proofs.Trie.Forms
/-!
What the keys of a template are like.

The texts of a template are not empty and hold nothing that would cut them, and so are those of its
keys. A key that is no text holds a variable, and texts that stood side by side have become one.
-/

namespace UriRouting

open UriRouting.Part (texts textsOfPart)
open Text (lowercase)

/-! ## Keys -/

/-- A text is not empty, and not cut by the delimiter of its side. -/
def Side.Uncut (side : Side) (s : String) : Prop := s ≠ "" ∧ side.delimiter ∉ s.toList

theorem Side.IsText.uncut {side : Side} {s : String} (h : side.IsText s) : side.Uncut s :=
  ⟨h.1, fun hc => h.2 _ hc side.delimiter_mem_reserved⟩

def SegmentPart.isLiteral : SegmentPart → Bool
  | literal _ => true
  | var _ => false

/-- Two neighbours are not both texts. -/
def Apart (parts : List SegmentPart) : Prop :=
  parts.IsChain fun a b => a.isLiteral = false ∨ b.isLiteral = false

structure SegmentPattern.Fits (side : Side) (p : SegmentPattern) : Prop where
  vars : p.vars ≠ []
  apart : Apart p.parts
  texts : ∀ s, .literal s ∈ p.parts → side.Uncut s

/-- What holds of the keys of a path or host. -/
def Key.Fits (side : Side) : Key → Prop
  | .literal s => side.Uncut s
  | .pattern p => p.Fits side

/-! ## Texts of forms -/

namespace Compiler

theorem texts_resolve {c : Compiler} {parts : List (Part Slot)} {forms count : Nat}
    {resolved : List (Part Variable)} (h : c.resolve forms parts = .ok (resolved, count)) :
    texts resolved = texts parts := by
  induction parts using Part.rows_induction generalizing forms count resolved with
  | nil =>
    cases h
    rfl
  | delimiter rest ih =>
    obtain ⟨p', n, rest', hp, hrest, rfl⟩ := resolve_cons_ok h
    cases hp
    rw [texts, texts, ih hrest]
    rfl
  | text s rest ih =>
    obtain ⟨p', n, rest', hp, hrest, rfl⟩ := resolve_cons_ok h
    cases hp
    rw [texts, texts, ih hrest]
    rfl
  | var slot rest ih =>
    obtain ⟨p', n, rest', hp, hrest, rfl⟩ := resolve_cons_ok h
    obtain ⟨v, -, rfl⟩ := resolvePart_var_ok hp
    rw [texts, texts, ih hrest]
    rfl
  | optional inner rest ihinner ih =>
    obtain ⟨p', n, rest', hp, hrest, rfl⟩ := resolve_cons_ok h
    obtain ⟨inner', longer, hinner, rfl⟩ := resolvePart_optional_ok hp
    rw [texts, texts, ih hrest, textsOfPart, textsOfPart, ihinner hinner]

end Compiler

theorem Kept.mem_texts {parts : List (Part Variable)} {form : List FormPiece} (h : Kept parts form)
    {s : String} (hs : FormPiece.part (.literal s) ∈ form) : s ∈ texts parts := by
  induction h with
  | nil => cases hs
  | delimiter h ih =>
    rcases List.mem_cons.mp hs with hs | hs
    · cases hs
    · exact List.mem_append_right _ (ih hs)
  | text s' h ih =>
    rcases List.mem_cons.mp hs with hs | hs
    · cases hs
      exact List.mem_append_left _ List.mem_cons_self
    · exact List.mem_append_right _ (ih hs)
  | var v h ih =>
    rcases List.mem_cons.mp hs with hs | hs
    · cases hs
    · exact List.mem_append_right _ (ih hs)
  | drop inner h ih => exact List.mem_append_right _ (ih hs)
  | keep hinner h ihinner ih =>
    rcases List.mem_append.mp hs with hs | hs
    · exact List.mem_append_left _ (ihinner hs)
    · exact List.mem_append_right _ (ih hs)

/-! ## Texts of keys -/

theorem joinTexts_ne_nil {segment : List SegmentPart} (h : segment ≠ []) : joinTexts segment ≠ [] := by
  cases segment with
  | nil => exact absurd rfl h
  | cons p rest =>
    cases p with
    | var v => exact List.cons_ne_nil _ _
    | literal a =>
      rw [joinTexts]
      split <;> exact List.cons_ne_nil _ _

theorem joinTexts_apart (segment : List SegmentPart) : Apart (joinTexts segment) := by
  induction segment with
  | nil => exact .nil
  | cons p rest ih =>
    cases p with
    | var v => exact ih.cons fun _ _ => Or.inl rfl
    | literal a =>
      rw [joinTexts]
      split
      · next b rest' hrest =>
        rw [hrest] at ih
        exact ih.tail.cons fun y hy => Or.inr ((ih.rel_head? hy).resolve_left Bool.noConfusion)
      · next hrest =>
        refine ih.cons fun y hy => Or.inr ?_
        cases y with
        | var v => rfl
        | literal b =>
          obtain ⟨rest', hrest'⟩ := List.head?_eq_some_iff.mp hy
          exact absurd hrest' (hrest b rest')

theorem mem_joinTexts {P : String → Prop} (happend : ∀ a b, P a → P b → P (a ++ b))
    {segment : List SegmentPart} (h : ∀ s, .literal s ∈ segment → P s) {s : String}
    (hs : SegmentPart.literal s ∈ joinTexts segment) : P s := by
  induction segment generalizing s with
  | nil => cases hs
  | cons p rest ih =>
    have ih := fun {s : String} => ih (s := s) fun s hs => h s (List.mem_cons_of_mem p hs)
    cases p with
    | var v =>
      rcases List.mem_cons.mp hs with hs | hs
      · cases hs
      · exact ih hs
    | literal a =>
      have ha := h a List.mem_cons_self
      rw [joinTexts] at hs
      split at hs
      · next b rest' hrest =>
        rw [hrest] at ih
        rcases List.mem_cons.mp hs with hs | hs
        · cases hs
          exact happend a b ha (ih List.mem_cons_self)
        · exact ih (List.mem_cons_of_mem _ hs)
      · rcases List.mem_cons.mp hs with hs | hs
        · cases hs
          exact ha
        · exact ih hs

theorem Side.Uncut.append {side : Side} {a b : String} (ha : side.Uncut a) (hb : side.Uncut b) :
    side.Uncut (a ++ b) := by
  refine ⟨fun h => ha.1 (String.append_eq_empty_iff.mp h).1, ?_⟩
  rw [String.toList_append, List.mem_append]
  exact fun h => h.elim ha.2 hb.2

/-- Lower case does not cut a text. -/
theorem Side.Uncut.onSide {side : Side} {s : String} (h : side.Uncut s) :
    ∃ s', SegmentPart.onSide side (.literal s) = .literal s' ∧ side.Uncut s' := by
  cases side with
  | path => exact ⟨s, rfl, h⟩
  | host =>
    exact ⟨lowercase s, rfl, Text.lowercase_ne_empty h.1,
      fun hmem => h.2 (Text.mem_lowercase (by decide) (by decide) hmem)⟩

theorem isLiteral_onSide (side : Side) (p : SegmentPart) : (p.onSide side).isLiteral = p.isLiteral := by
  cases p <;> cases side <;> rfl

/-- Of parts that are apart, more than one hold a variable. -/
theorem Apart.vars_ne_nil {parts : List SegmentPart} (h : Apart parts) (hnil : parts ≠ [])
    (hsingle : ∀ s, parts ≠ [.literal s]) : parts.filterMap SegmentPart.var? ≠ [] := by
  have hvar : ∀ {v : Variable}, .var v ∈ parts → parts.filterMap SegmentPart.var? ≠ [] := fun hv =>
    List.ne_nil_of_mem (List.mem_filterMap.mpr ⟨_, hv, rfl⟩)
  cases parts with
  | nil => exact absurd rfl hnil
  | cons p rest =>
    cases p with
    | var v => exact hvar List.mem_cons_self
    | literal s =>
      cases rest with
      | nil => exact absurd rfl (hsingle s)
      | cons q rest =>
        cases q with
        | var v => exact hvar (List.mem_cons_of_mem _ List.mem_cons_self)
        | literal s' => rcases h.rel_head? rfl with h | h <;> cases h

theorem joinTexts_uncut {side : Side} {segment : List SegmentPart}
    (h : ∀ s, .literal s ∈ segment → side.Uncut s) : ∀ s, .literal s ∈ joinTexts segment → side.Uncut s :=
  fun _ hs => mem_joinTexts (fun _ _ ha hb => ha.append hb) h hs

theorem joinTexts_present {side : Side} {segment : List SegmentPart}
    (h : ∀ s, .literal s ∈ segment → side.Uncut s) :
    (joinTexts segment).filter SegmentPart.isPresent = joinTexts segment := by
  refine List.filter_eq_self.mpr fun p hp => ?_
  cases p with
  | var v => rfl
  | literal s => exact decide_eq_true (joinTexts_uncut h s hp).1

theorem fits_of_keyOf {side : Side} {segment : List SegmentPart} {k : Key} (hne : segment ≠ [])
    (htexts : ∀ s, .literal s ∈ segment → side.Uncut s) (h : keyOf side segment = .ok k) :
    k.Fits side := by
  have huncut : ∀ s, .literal s ∈ (joinTexts segment).map (SegmentPart.onSide side) → side.Uncut s := by
    intro s hs
    obtain ⟨p, hp, hps⟩ := List.mem_map.mp hs
    cases p with
    | var v => cases hps
    | literal a =>
      obtain ⟨s', hs', h'⟩ := (joinTexts_uncut htexts a hp).onSide
      rw [hs'] at hps
      cases hps
      exact h'
  have hapart : Apart ((joinTexts segment).map (SegmentPart.onSide side)) := by
    refine List.isChain_map_of_isChain _ (fun a b hab => ?_) (joinTexts_apart segment)
    rw [isLiteral_onSide, isLiteral_onSide]
    exact hab
  unfold keyOf at h
  rw [joinTexts_present htexts] at h
  split at h
  · next hnil => exact absurd (List.map_eq_nil_iff.mp hnil) (joinTexts_ne_nil hne)
  · next s hsingle =>
    cases h
    exact huncut s (by rw [hsingle]; exact List.mem_cons_self)
  · next parts hnil hsingle =>
    dsimp only at h
    split at h
    · cases h
      exact ⟨hapart.vars_ne_nil hnil hsingle, hapart, huncut⟩
    · cases h

theorem forall₂_of_mapM_ok {α γ ε : Type} {f : α → Except ε γ} {as : List α} {bs : List γ}
    (h : as.mapM f = .ok bs) : List.Forall₂ (fun a b => f a = .ok b) as bs := by
  induction as generalizing bs with
  | nil =>
    cases h
    exact .nil
  | cons a as ih =>
    rw [List.mapM_cons] at h
    obtain ⟨b, hb, h⟩ := except_bind_ok h
    obtain ⟨bs', hbs', h⟩ := except_bind_ok h
    cases h
    exact .cons hb (ih hbs')

theorem exists_of_mapM_ok {α γ ε : Type} {f : α → Except ε γ} {as : List α} {bs : List γ}
    (h : as.mapM f = .ok bs) {a : α} (ha : a ∈ as) : ∃ b ∈ bs, f a = .ok b := by
  obtain ⟨hlength, hget⟩ := List.forall₂_iff_get.mp (forall₂_of_mapM_ok h)
  obtain ⟨i, rfl⟩ := List.get_of_mem ha
  exact ⟨bs.get ⟨i, hlength ▸ i.2⟩, List.get_mem bs _, hget i i.2 _⟩

theorem exists_mapM_ok {α γ ε : Type} {f : α → Except ε γ} {as : List α}
    (h : ∀ a ∈ as, ∃ b, f a = .ok b) : ∃ bs, as.mapM f = .ok bs := by
  induction as with
  | nil => exact ⟨[], rfl⟩
  | cons a as ih =>
    obtain ⟨b, hb⟩ := h a List.mem_cons_self
    obtain ⟨bs, hbs⟩ := ih fun a ha => h a (List.mem_cons_of_mem _ ha)
    exact ⟨b :: bs, by rw [List.mapM_cons, hb, hbs]; rfl⟩

theorem length_mapM_ok {α γ ε : Type} {f : α → Except ε γ} {as : List α} {bs : List γ}
    (h : as.mapM f = .ok bs) : bs.length = as.length :=
  (forall₂_of_mapM_ok h).length_eq.symm

/-- The keys of a template whose texts are in order fit, and there are not too many of them. -/
theorem Compiler.Spells.fits {c : Compiler} {side : Side} {parts : List (Part Slot)} {row : List Key}
    (h : c.Spells side parts row) (htexts : side.AllTexts parts) :
    (∀ k ∈ row, k.Fits side) ∧ row.length ≤ c.config.maxSegments := by
  obtain ⟨resolved, count, form, hresolve, hform, hrow⟩ := h
  unfold Compiler.keysOf at hrow
  dsimp only at hrow
  split at hrow
  · cases hrow
  · next hlimit =>
    refine ⟨fun k hk => ?_, ?_⟩
    · obtain ⟨segment, hsegment, hkey⟩ := (mem_of_mapM_ok hrow).mp hk
      obtain ⟨hcut, hne⟩ := List.mem_filter.mp hsegment
      refine fits_of_keyOf (fun hnil => ?_) (fun s hs => ?_) hkey
      · rw [hnil] at hne
        cases hne
      · have hmem := hform.mem_texts (mem_of_mem_cutForm hcut hs)
        rw [Compiler.texts_resolve hresolve] at hmem
        exact (htexts s hmem).uncut
    · rw [length_mapM_ok hrow]
      omega

end UriRouting

import UriRouting.Proofs.Pattern.Room
import UriRouting.Proofs.Template.Acceptance
import UriRouting.Proofs.Trie.Fits
import UriRouting.Proofs.Trie.Joined
import UriRouting.Proofs.Trie.Resolved
/-!
Variables that stand next to each other in a key.

The parser refuses a variable right behind a variable of the same row, but a form puts together what
stands inside and outside of optional parts. `mayGlue` tells from the parts alone whether some form has
two variables with nothing between them, and `Compiler.glued_expand` that then, and only then, some key
has them.
-/

namespace UriRouting

/-! ## Keys -/

/-- Two variables of a key stand next to each other. -/
def Key.Glued : Key → Prop
  | .literal _ => False
  | .pattern p => ∃ v w, [SegmentPart.var v, .var w] <:+: p.parts

/-! ## Rows of parts -/

mutual

/-- Whether some choice of optional parts ends with a variable, given whether what comes before does. -/
def Part.mayEndVar {ν : Type} (behindVar : Bool) : Part ν → Bool
  | .delimiter | .text _ => false
  | .var _ => true
  | .optional inner => behindVar || mayEndVar behindVar inner

def mayEndVar {ν : Type} (behindVar : Bool) : List (Part ν) → Bool
  | [] => behindVar
  | p :: rest => mayEndVar (p.mayEndVar behindVar) rest

end

mutual

/-- Whether some choice of optional parts puts a variable right behind another one. -/
def Part.mayGlue {ν : Type} (behindVar : Bool) : Part ν → Bool
  | .delimiter | .text _ => false
  | .var _ => behindVar
  | .optional inner => mayGlue behindVar inner

def mayGlue {ν : Type} (behindVar : Bool) : List (Part ν) → Bool
  | [] => false
  | p :: rest => p.mayGlue behindVar || mayGlue (p.mayEndVar behindVar) rest

end

theorem mayEndVar_mapRow {ν μ : Type} (f : ν → μ) (behindVar : Bool) (parts : List (Part ν)) :
    mayEndVar behindVar (Part.mapRow f parts) = mayEndVar behindVar parts := by
  induction parts using Part.rows_induction generalizing behindVar with
  | nil => rfl
  | delimiter rest ih => simp [mayEndVar, Part.mayEndVar, ih]
  | text s rest ih => simp [mayEndVar, Part.mayEndVar, ih]
  | var v rest ih => simp [mayEndVar, Part.mayEndVar, ih]
  | optional inner rest ihinner ih => simp [mayEndVar, Part.mayEndVar, ihinner, ih]

theorem mayGlue_mapRow {ν μ : Type} (f : ν → μ) (behindVar : Bool) (parts : List (Part ν)) :
    mayGlue behindVar (Part.mapRow f parts) = mayGlue behindVar parts := by
  induction parts using Part.rows_induction generalizing behindVar with
  | nil => rfl
  | delimiter rest ih => simp [mayGlue, Part.mayGlue, Part.mayEndVar, ih]
  | text s rest ih => simp [mayGlue, Part.mayGlue, Part.mayEndVar, ih]
  | var v rest ih => simp [mayGlue, Part.mayGlue, Part.mayEndVar, ih]
  | optional inner rest ihinner ih =>
    simp [mayGlue, Part.mayGlue, Part.mayEndVar, mayEndVar_mapRow, ihinner, ih]

/-! ## Forms -/

def FormPiece.isVar : FormPiece → Bool
  | .part (.var _) => true
  | _ => false

def formEndsVar (behindVar : Bool) : List FormPiece → Bool
  | [] => behindVar
  | p :: rest => formEndsVar p.isVar rest

def formGlues (behindVar : Bool) : List FormPiece → Bool
  | [] => false
  | p :: rest => (behindVar && p.isVar) || formGlues p.isVar rest

theorem formEndsVar_append (behindVar : Bool) (front back : List FormPiece) :
    formEndsVar behindVar (front ++ back) = formEndsVar (formEndsVar behindVar front) back := by
  induction front generalizing behindVar with
  | nil => rfl
  | cons p front ih => exact ih p.isVar

theorem formGlues_append (behindVar : Bool) (front back : List FormPiece) :
    formGlues behindVar (front ++ back)
      = (formGlues behindVar front || formGlues (formEndsVar behindVar front) back) := by
  induction front generalizing behindVar with
  | nil => rfl
  | cons p front ih => rw [List.cons_append, formGlues, formGlues, formEndsVar, ih, Bool.or_assoc]

/-- A form that ends with a variable or glues two does so behind a variable as well. -/
theorem formEndsVar_behindVar {behindVar : Bool} {form : List FormPiece}
    (h : formEndsVar behindVar form = true) : formEndsVar true form = true := by
  cases form with
  | nil => rfl
  | cons p rest => exact h

theorem formGlues_behindVar {behindVar : Bool} {form : List FormPiece}
    (h : formGlues behindVar form = true) : formGlues true form = true := by
  cases behindVar with
  | true => exact h
  | false =>
    cases form with
    | nil => exact h
    | cons p rest =>
      rw [formGlues, Bool.false_and, Bool.false_or] at h
      rw [formGlues, h, Bool.or_true]

theorem formsOfPart_ne_nil (p : Part Variable) : formsOfPart p ≠ [] := by
  cases p <;> exact List.cons_ne_nil _ _

/-- What holds behind some form of a part holds behind a variable, if one of the forms may end with one,
and else behind none. -/
theorem exists_behind {P : Bool → Prop} (hP : ∀ b, P b → P true) {p : Part Variable} {behindVar : Bool}
    (hp : p.mayEndVar behindVar = true ↔ ∃ here ∈ formsOfPart p, formEndsVar behindVar here = true) :
    P (p.mayEndVar behindVar) ↔ ∃ here ∈ formsOfPart p, P (formEndsVar behindVar here) := by
  cases hends : p.mayEndVar behindVar with
  | true =>
    obtain ⟨here, hhere, hvar⟩ := hp.mp hends
    constructor
    · intro h
      exact ⟨here, hhere, hvar.symm ▸ h⟩
    · intro h
      obtain ⟨_, -, h⟩ := h
      exact hP _ h
  | false =>
    have hnone : ∀ here ∈ formsOfPart p, formEndsVar behindVar here = false := by
      intro here hhere
      refine Bool.eq_false_iff.mpr fun hvar => ?_
      rw [hp.mpr ⟨here, hhere, hvar⟩] at hends
      cases hends
    constructor
    · intro h
      obtain ⟨here, hhere⟩ := List.exists_mem_of_ne_nil _ (formsOfPart_ne_nil p)
      exact ⟨here, hhere, (hnone here hhere).symm ▸ h⟩
    · intro h
      obtain ⟨here, hhere, h⟩ := h
      exact hnone here hhere ▸ h

theorem exists_formsOf_cons {p : Part Variable} {rest : List (Part Variable)}
    {P : List FormPiece → Prop} :
    (∃ form ∈ formsOf (p :: rest), P form) ↔
      ∃ later ∈ formsOf rest, ∃ here ∈ formsOfPart p, P (here ++ later) := by
  simp only [mem_formsOf_cons]
  constructor
  · intro h
    obtain ⟨form, ⟨later, hlater, here, hhere, rfl⟩, h⟩ := h
    exact ⟨later, hlater, here, hhere, h⟩
  · intro h
    obtain ⟨later, hlater, here, hhere, h⟩ := h
    exact ⟨_, ⟨later, hlater, here, hhere, rfl⟩, h⟩

theorem mayEndVar_cons_iff {p : Part Variable} {rest : List (Part Variable)} {behindVar : Bool}
    (hp : p.mayEndVar behindVar = true ↔ ∃ here ∈ formsOfPart p, formEndsVar behindVar here = true)
    (hrest : ∀ b, mayEndVar b rest = true ↔ ∃ later ∈ formsOf rest, formEndsVar b later = true) :
    mayEndVar behindVar (p :: rest) = true ↔
      ∃ form ∈ formsOf (p :: rest), formEndsVar behindVar form = true := by
  rw [mayEndVar, hrest, exists_formsOf_cons]
  simp only [formEndsVar_append]
  exact exists_congr fun later => and_congr_right fun _ =>
    exists_behind (P := fun b => formEndsVar b later = true) (fun _ => formEndsVar_behindVar) hp

/-- Whether a row may end with a variable is whether one of its forms does. -/
theorem mayEndVar_iff {parts : List (Part Variable)} {behindVar : Bool} :
    mayEndVar behindVar parts = true ↔ ∃ form ∈ formsOf parts, formEndsVar behindVar form = true := by
  induction parts using Part.rows_induction generalizing behindVar with
  | nil => simp [mayEndVar, formsOf, formEndsVar]
  | delimiter rest ih =>
    exact mayEndVar_cons_iff (by simp [Part.mayEndVar, formsOfPart, formEndsVar, FormPiece.isVar])
      fun b => ih
  | text s rest ih =>
    exact mayEndVar_cons_iff (by simp [Part.mayEndVar, formsOfPart, formEndsVar, FormPiece.isVar])
      fun b => ih
  | var v rest ih =>
    exact mayEndVar_cons_iff (by simp [Part.mayEndVar, formsOfPart, formEndsVar, FormPiece.isVar])
      fun b => ih
  | optional inner rest ihinner ih =>
    exact mayEndVar_cons_iff (by simp [Part.mayEndVar, formsOfPart, formEndsVar, ihinner]) fun b => ih

theorem mayEndVar_part_iff (p : Part Variable) (behindVar : Bool) :
    p.mayEndVar behindVar = true ↔ ∃ here ∈ formsOfPart p, formEndsVar behindVar here = true := by
  have hrow : mayEndVar behindVar [p] = p.mayEndVar behindVar := rfl
  rw [← hrow, mayEndVar_iff, exists_formsOf_cons]
  simp [formsOf]

theorem mayGlue_cons_iff {p : Part Variable} {rest : List (Part Variable)} {behindVar : Bool}
    (hp : p.mayGlue behindVar = true ↔ ∃ here ∈ formsOfPart p, formGlues behindVar here = true)
    (hrest : ∀ b, mayGlue b rest = true ↔ ∃ later ∈ formsOf rest, formGlues b later = true) :
    mayGlue behindVar (p :: rest) = true ↔
      ∃ form ∈ formsOf (p :: rest), formGlues behindVar form = true := by
  have hbehind : ∀ later, formGlues (p.mayEndVar behindVar) later = true ↔
      ∃ here ∈ formsOfPart p, formGlues (formEndsVar behindVar here) later = true := fun later =>
    exists_behind (P := fun b => formGlues b later = true) (fun _ => formGlues_behindVar)
      (mayEndVar_part_iff p behindVar)
  rw [mayGlue, Bool.or_eq_true, hp, hrest, exists_formsOf_cons]
  simp only [formGlues_append, Bool.or_eq_true, hbehind]
  constructor
  · rintro (⟨here, hhere, h⟩ | ⟨later, hlater, here, hhere, h⟩)
    · obtain ⟨later, hlater⟩ := exists_kept rest
      exact ⟨later, mem_formsOf.mpr hlater, here, hhere, Or.inl h⟩
    · exact ⟨later, hlater, here, hhere, Or.inr h⟩
  · rintro ⟨later, hlater, here, hhere, h | h⟩
    · exact Or.inl ⟨here, hhere, h⟩
    · exact Or.inr ⟨later, hlater, here, hhere, h⟩

/-- Whether a row may put two variables next to each other is whether one of its forms does. -/
theorem mayGlue_iff {parts : List (Part Variable)} {behindVar : Bool} :
    mayGlue behindVar parts = true ↔ ∃ form ∈ formsOf parts, formGlues behindVar form = true := by
  induction parts using Part.rows_induction generalizing behindVar with
  | nil => simp [mayGlue, formsOf, formGlues]
  | delimiter rest ih =>
    exact mayGlue_cons_iff (by simp [Part.mayGlue, formsOfPart, formGlues, FormPiece.isVar])
      fun b => ih
  | text s rest ih =>
    exact mayGlue_cons_iff (by simp [Part.mayGlue, formsOfPart, formGlues, FormPiece.isVar])
      fun b => ih
  | var v rest ih =>
    exact mayGlue_cons_iff (by simp [Part.mayGlue, formsOfPart, formGlues, FormPiece.isVar])
      fun b => ih
  | optional inner rest ihinner ih =>
    exact mayGlue_cons_iff (by simp [Part.mayGlue, formsOfPart, formGlues, ihinner]) fun b => ih

/-! ## Segments -/

theorem formGlues_iff {parts : List SegmentPart} {behindVar : Bool} :
    formGlues behindVar (parts.map .part) = true ↔
      (behindVar = true ∧ ∃ v, [.var v] <+: parts) ∨ ∃ v w, [SegmentPart.var v, .var w] <:+: parts := by
  induction parts generalizing behindVar with
  | nil => simp [formGlues]
  | cons p rest ih =>
    rw [List.map_cons, formGlues, Bool.or_eq_true, ih]
    cases p with
    | literal s => simp [FormPiece.isVar, List.infix_cons_iff]
    | var u => simp [FormPiece.isVar, List.infix_cons_iff, exists_or]

/-- Delimiters keep variables apart: those of a form that are next to each other are in one segment. -/
theorem formGlues_cutForm {form : List FormPiece} {behindVar : Bool} {first : List SegmentPart}
    {others : List (List SegmentPart)} (h : cutForm form = first :: others) :
    formGlues behindVar form = (formGlues behindVar (first.map .part) ||
      others.any fun segment => formGlues false (segment.map .part)) := by
  induction form generalizing behindVar first others with
  | nil =>
    cases h
    rfl
  | cons piece rest ih =>
    obtain ⟨next, later, hrest⟩ := List.exists_cons_of_ne_nil (cutForm_ne_nil rest)
    cases piece with
    | delimiter =>
      rw [cutForm, hrest] at h
      cases h
      rw [formGlues, ih hrest]
      simp [formGlues, FormPiece.isVar]
    | part p =>
      rw [cutForm, hrest] at h
      cases h
      rw [formGlues, ih hrest, List.map_cons, formGlues, Bool.or_assoc]

theorem formGlues_segmentsOf {form : List FormPiece} :
    formGlues false form = true ↔
      ∃ segment ∈ segmentsOf form, formGlues false (segment.map .part) = true := by
  obtain ⟨first, others, hcut⟩ := List.exists_cons_of_ne_nil (cutForm_ne_nil form)
  have hne : ∀ segment : List SegmentPart, formGlues false (segment.map .part) = true →
      (!segment.isEmpty) = true := by
    intro segment h
    cases segment with
    | nil => cases h
    | cons p rest => rfl
  rw [formGlues_cutForm hcut, segmentsOf, hcut, Bool.or_eq_true, List.any_eq_true]
  simp only [List.mem_filter, List.mem_cons]
  constructor
  · rintro (h | ⟨segment, hmem, h⟩)
    · exact ⟨first, ⟨Or.inl rfl, hne _ h⟩, h⟩
    · exact ⟨segment, ⟨Or.inr hmem, hne _ h⟩, h⟩
  · rintro ⟨segment, ⟨rfl | hmem, -⟩, h⟩
    · exact Or.inl h
    · exact Or.inr ⟨segment, hmem, h⟩

theorem formGlues_joinTexts (segment : List SegmentPart) (behindVar : Bool) :
    formGlues behindVar ((joinTexts segment).map .part) = formGlues behindVar (segment.map .part) := by
  induction segment generalizing behindVar with
  | nil => rfl
  | cons p rest ih =>
    cases p with
    | var v => rw [joinTexts, List.map_cons, List.map_cons, formGlues, formGlues, ih]
    | literal a =>
      rw [joinTexts, List.map_cons, formGlues, ← ih]
      split
      · next b rest' hrest => simp [hrest, formGlues, FormPiece.isVar]
      · simp [formGlues]

theorem formGlues_onSide (side : Side) (parts : List SegmentPart) (behindVar : Bool) :
    formGlues behindVar ((parts.map (SegmentPart.onSide side)).map .part)
      = formGlues behindVar (parts.map .part) := by
  induction parts generalizing behindVar with
  | nil => rfl
  | cons p rest ih =>
    have hvar : (FormPiece.part (p.onSide side)).isVar = (FormPiece.part p).isVar := by
      cases p <;> cases side <;> rfl
    rw [List.map_cons, List.map_cons, List.map_cons, formGlues, formGlues, hvar, ih]

/-- A key has two variables next to each other where its segment has. -/
theorem glued_keyOf {side : Side} {segment : List SegmentPart} {k : Key}
    (htexts : ∀ s, .literal s ∈ segment → side.Uncut s) (h : keyOf side segment = .ok k) :
    k.Glued ↔ formGlues false (segment.map .part) = true := by
  rw [← formGlues_joinTexts, ← formGlues_onSide side]
  unfold keyOf at h
  rw [joinTexts_present htexts] at h
  split at h
  · next hnil =>
    cases h
    simp [hnil, Key.Glued, formGlues]
  · next text hsingle =>
    cases h
    simp [hsingle, Key.Glued, formGlues, FormPiece.isVar]
  · dsimp only at h
    split at h
    · cases h
      rw [formGlues_iff]
      simp [Key.Glued]
    · cases h

/-! ## Templates -/

namespace Compiler

/-- The parts of a path or host tell whether a key that they stand for has two variables next to each
other. -/
theorem glued_expand {c : Compiler} {side : Side} {parts : List (Part Slot)} {rows : List (List Key)}
    (htexts : side.AllTexts parts) (h : c.expand side parts = .ok rows) :
    (∃ row ∈ rows, ∃ k ∈ row, k.Glued) ↔ mayGlue false parts = true := by
  obtain ⟨resolved, count, hresolve, hrows⟩ := expand_resolves h
  rw [← mayGlue_mapRow Slot.name, ← resolve_names hresolve, mayGlue_mapRow, mayGlue_iff]
  have hkeys : ∀ form ∈ formsOf resolved, ∀ row, c.keysOf side form = .ok row →
      ((∃ k ∈ row, k.Glued) ↔ formGlues false form = true) := by
    intro form hform row hrow
    have huncut : ∀ segment ∈ segmentsOf form, ∀ s, .literal s ∈ segment → side.Uncut s := by
      intro segment hsegment s hs
      have hmem := (mem_formsOf.mp hform).mem_texts
        (mem_of_mem_cutForm (List.mem_filter.mp hsegment).1 hs)
      rw [texts_resolve hresolve] at hmem
      exact (htexts s hmem).uncut
    unfold keysOf at hrow
    dsimp only at hrow
    split at hrow
    · cases hrow
    · rw [formGlues_segmentsOf]
      constructor
      · rintro ⟨k, hk, hglued⟩
        obtain ⟨segment, hsegment, hkey⟩ := (mem_of_mapM_ok hrow).mp hk
        exact ⟨segment, hsegment, (glued_keyOf (huncut segment hsegment) hkey).mp hglued⟩
      · rintro ⟨segment, hsegment, hglues⟩
        obtain ⟨k, hk, hkey⟩ := exists_of_mapM_ok hrow hsegment
        exact ⟨k, hk, (glued_keyOf (huncut segment hsegment) hkey).mpr hglues⟩
  constructor
  · rintro ⟨row, hrow, hglued⟩
    obtain ⟨form, hform, hrow⟩ := (mem_of_mapM_ok hrows).mp hrow
    exact ⟨form, hform, (hkeys form hform row hrow).mp hglued⟩
  · rintro ⟨form, hform, hglues⟩
    obtain ⟨row, hmem, hrow⟩ := exists_of_mapM_ok hrows hform
    exact ⟨row, hmem, (hkeys form hform row hrow).mpr hglues⟩

end Compiler

theorem mayGlue_labels {named : List (Part Slot)} {cs : List Char} (h : Labels named cs)
    (parts : List (Part Slot)) (behindVar : Bool) :
    mayGlue behindVar (named ++ parts) = mayGlue false parts := by
  induction h generalizing behindVar with
  | last plain => simp [mayGlue, Part.mayGlue, Part.mayEndVar]
  | more plain others ih => simp [mayGlue, Part.mayGlue, Part.mayEndVar, ih]

/-- The parser keeps the variables of one row apart. -/
theorem SpellsRow.mayGlue {side : Side} {nested behindVar : Bool} {parts : List (Part Slot)}
    {tokens : List Token} (h : SpellsRow side nested behindVar parts tokens)
    (hplain : ∀ inner, .optional inner ∉ parts) : mayGlue behindVar parts = false := by
  induction h with
  | nil => rfl
  | delimiter role rest ih =>
    simpa [UriRouting.mayGlue, Part.mayGlue, Part.mayEndVar] using
      ih fun inner hmem => hplain inner (List.mem_cons_of_mem _ hmem)
  | text role rest ih =>
    simpa [UriRouting.mayGlue, Part.mayGlue, Part.mayEndVar] using
      ih fun inner hmem => hplain inner (List.mem_cons_of_mem _ hmem)
  | labels role labels rest ih =>
    rw [mayGlue_labels labels]
    exact ih fun inner hmem => hplain inner (List.mem_append_right _ hmem)
  | var role bare rest ih =>
    simpa [UriRouting.mayGlue, Part.mayGlue, Part.mayEndVar] using
      ih fun inner hmem => hplain inner (List.mem_cons_of_mem _ hmem)
  | ruled role opening spelled rest ih =>
    simpa [UriRouting.mayGlue, Part.mayGlue, Part.mayEndVar] using
      ih fun inner hmem => hplain inner (List.mem_cons_of_mem _ hmem)
  | optionalPath role start spelled closing rest => exact absurd List.mem_cons_self (hplain _)
  | optionalHost role spelled stop closing rest => exact absurd List.mem_cons_self (hplain _)

theorem ofString_mayGlue {text : String} {template : Template}
    (h : Template.ofString text = .ok template) {parts : List (Part Slot)}
    (hparts : parts = template.path ∨ template.host? = some parts)
    (hplain : ∀ inner, .optional inner ∉ parts) : mayGlue false parts = false := by
  obtain ⟨tokens, -, hparse⟩ := ofString_ok h
  cases parse_ok_iff.mp hparse with
  | path cut brackets spelled =>
    rcases hparts with rfl | hsome
    · exact spelled.mayGlue hplain
    · cases hsome
  | host cut more spelledHost spelledPath =>
    rcases hparts with rfl | hsome
    · exact spelledPath.mayGlue hplain
    · cases hsome
      exact spelledHost.mayGlue hplain

/-- A key of a template has two variables next to each other exactly where the parts of the template say
so. Without optional parts they never do: the parser keeps the variables of one row apart, but not those
inside of an optional part from those around it. -/
theorem glued_iff_mayGlue {text : String} {template : Template} {c : Compiler}
    {compiled : CompiledTemplate} (hreads : Template.ofString text = .ok template)
    (hcompiles : c.compile template = .ok compiled) :
    ((∃ row ∈ compiled.paths, ∃ k ∈ row, k.Glued) ↔ mayGlue false template.path = true) ∧
      ((∃ host, some host ∈ compiled.hosts ∧ ∃ k ∈ host, k.Glued) ↔
        ∃ parts, template.host? = some parts ∧ mayGlue false parts = true) ∧
      ∀ parts, (parts = template.path ∨ template.host? = some parts) →
        (∀ inner, .optional inner ∉ parts) → mayGlue false parts = false := by
  obtain ⟨hpathTexts, hhostTexts⟩ := ofString_texts hreads
  obtain ⟨hpaths, hhosts⟩ := Compiler.compile_ok hcompiles
  refine ⟨Compiler.glued_expand hpathTexts hpaths, ?_, fun parts => ofString_mayGlue hreads⟩
  rcases hhosts with ⟨hnone, hhosts⟩ | ⟨parts, rows, hsome, hexpand, hhosts⟩
  · simp [hnone, hhosts]
  · have hrows := Compiler.glued_expand (hhostTexts parts hsome) hexpand
    simp only [hsome, hhosts, Option.some.injEq, exists_eq_left', ← hrows, List.mem_map]
    constructor
    · rintro ⟨host, ⟨row, hrow, rfl⟩, k, hk, hglued⟩
      exact ⟨row, hrow, k, List.mem_reverse.mp hk, hglued⟩
    · rintro ⟨row, hrow, k, hk, hglued⟩
      exact ⟨row.reverse, ⟨row, hrow, rfl⟩, k, List.mem_reverse.mpr hk, hglued⟩

/-! ## Short segments -/

/-- A segment that is a single part or a variable behind a short one. -/
def isShortSegment (side : Side) : List SegmentPart → Bool
  | [] | [_] => true
  | [p, .var _] => p.isPresent && (p.onSide side).isShort
  | _ => false

theorem exists_keyOf {side : Side} {segment : List SegmentPart}
    (h : isShortSegment side segment = true) : ∃ k, keyOf side segment = .ok k := by
  unfold isShortSegment at h
  unfold keyOf
  split at h
  · exact ⟨_, rfl⟩
  · next p =>
    cases p with
    | var v => exact ⟨_, rfl⟩
    | literal s => by_cases hs : s = "" <;> cases side <;>
      simp [joinTexts, SegmentPart.isPresent, SegmentPart.onSide, hs]
  · next p v =>
    obtain ⟨hpresent, hshort⟩ := Bool.and_eq_true_iff.mp h
    have hjoin : joinTexts [p, .var v] = [p, .var v] := by cases p <;> rfl
    have hparts : ((joinTexts [p, .var v]).filter SegmentPart.isPresent).map (SegmentPart.onSide side)
        = [p.onSide side, .var v] := by
      rw [hjoin, List.filter_cons_of_pos hpresent]
      rfl
    rw [hparts]
    cases hside : p.onSide side with
    | literal s =>
      rw [hside] at hshort
      dsimp only
      rw [if_pos (SegmentPattern.fits_pair hshort v)]
      exact ⟨_, rfl⟩
    | var w =>
      rw [hside] at hshort
      dsimp only
      rw [if_pos (SegmentPattern.fits_pair hshort v)]
      exact ⟨_, rfl⟩
  · cases h

namespace Compiler

/-- Whether a row has rules that exist, and no form that is too long or has a segment that is not short. -/
def takesShort (c : Compiler) (side : Side) (parts : List (Part Slot)) : Bool :=
  (c.resolve 1 parts).toOption.any fun resolved => (formsOf resolved.1).all fun form =>
    (segmentsOf form).length ≤ c.config.maxSegments && (segmentsOf form).all (isShortSegment side)

theorem exists_expand {c : Compiler} {side : Side} {parts : List (Part Slot)}
    (h : c.takesShort side parts = true) : ∃ rows, c.expand side parts = .ok rows := by
  unfold takesShort at h
  rw [expand_eq]
  cases hresolve : c.resolve 1 parts with
  | error e =>
    rw [hresolve] at h
    cases h
  | ok resolved =>
    rw [hresolve] at h
    refine exists_mapM_ok fun form hform => ?_
    have hsegments := List.all_eq_true.mp h form hform
    rw [Bool.and_eq_true, decide_eq_true_eq] at hsegments
    obtain ⟨hlength, hshort⟩ := hsegments
    unfold keysOf
    dsimp only
    rw [if_neg (Nat.not_lt.mpr hlength)]
    exact exists_mapM_ok fun segment hsegment => exists_keyOf (List.all_eq_true.mp hshort segment hsegment)

def compilesShort (c : Compiler) (template : Template) : Bool :=
  c.takesShort .path template.path && template.host?.all (c.takesShort .host)

theorem exists_compile {c : Compiler} {template : Template} (h : c.compilesShort template = true) :
    ∃ compiled, c.compile template = .ok compiled := by
  obtain ⟨hpath, hhost⟩ := Bool.and_eq_true_iff.mp h
  obtain ⟨paths, hpaths⟩ := exists_expand hpath
  unfold compile
  cases hsome : template.host? with
  | none => exact ⟨⟨paths, none⟩, by rw [hpaths]; rfl⟩
  | some parts =>
    rw [hsome] at hhost
    obtain ⟨hosts, hhosts⟩ := exists_expand hhost
    exact ⟨⟨paths, some (hosts.map List.reverse)⟩, by simp only [hpaths, hhosts]; rfl⟩

end Compiler

def plainCompiler : Compiler := ⟨.default, {}, fun _ => []⟩

/-- A text that compiles to keys with variables next to each other. -/
theorem exists_compiled {text : String} {P : Template → Bool}
    (h : (Template.ofString text).toOption.any (fun template =>
      plainCompiler.compilesShort template && P template) = true) :
    ∃ template compiled, Template.ofString text = .ok template ∧
      plainCompiler.compile template = .ok compiled ∧ P template = true := by
  cases hreads : Template.ofString text with
  | error e =>
    rw [hreads] at h
    cases h
  | ok template =>
    rw [hreads] at h
    obtain ⟨hshort, hP⟩ := Bool.and_eq_true_iff.mp h
    obtain ⟨compiled, hcompiles⟩ := Compiler.exists_compile hshort
    exact ⟨template, compiled, rfl, hcompiles, hP⟩

/-- A variable behind an optional part that ends with one, and one in an optional part behind one. -/
theorem glued_iff_mayGlue_behind : ∃ template compiled,
    Template.ofString ":a[:b.]/x[/:a]:b" = .ok template ∧ plainCompiler.compile template = .ok compiled ∧
      (∃ row ∈ compiled.paths, ∃ k ∈ row, k.Glued) ∧
      ∃ host, some host ∈ compiled.hosts ∧ ∃ k ∈ host, k.Glued := by
  have hcheck : (Template.ofString ":a[:b.]/x[/:a]:b").toOption.any (fun template =>
      plainCompiler.compilesShort template &&
        (mayGlue false template.path && template.host?.any (mayGlue false))) = true := by
    decide +kernel
  obtain ⟨template, compiled, hreads, hcompiles, hglue⟩ := exists_compiled
    (P := fun template => mayGlue false template.path && template.host?.any (mayGlue false)) hcheck
  obtain ⟨hpath, hhost⟩ := Bool.and_eq_true_iff.mp hglue
  obtain ⟨parts, hparts, hhost⟩ := (Option.any_eq_true _ _).mp hhost
  obtain ⟨hpaths, hhosts, -⟩ := glued_iff_mayGlue hreads hcompiles
  exact ⟨template, compiled, hreads, hcompiles, hpaths.mpr hpath, hhosts.mpr ⟨parts, hparts, hhost⟩⟩

/-- The parser does not keep a variable from one that ends the optional part before it. -/
theorem variables_glued : ¬ ∀ (c : Compiler) (text : String) (template : Template)
    (compiled : CompiledTemplate), Template.ofString text = .ok template →
      c.compile template = .ok compiled → ∀ row ∈ compiled.paths, ∀ k ∈ row, ¬ k.Glued := by
  intro hnever
  have hcheck : (Template.ofString "/x[/:a]:b").toOption.any (fun template =>
      plainCompiler.compilesShort template &&
        mayGlue false template.path) = true := by
    decide +kernel
  obtain ⟨template, compiled, hreads, hcompiles, hglue⟩ := exists_compiled
    (P := fun template => mayGlue false template.path) hcheck
  obtain ⟨row, hrow, k, hk, hglued⟩ := (Compiler.glued_expand (ofString_texts hreads).1
    (Compiler.compile_ok hcompiles).1).mpr hglue
  exact hnever plainCompiler "/x[/:a]:b" template compiled hreads hcompiles row hrow k hk hglued

end UriRouting

import UriRouting.Proofs.Text.Pieces
import UriRouting.Proofs.Trie.Choices
/-!
Rows of delimiters and texts.

Without variables and optional parts there is one row of keys: what the row is written as, cut at its delimiters,
but for what is empty. A piece may be made of several texts, which are put together again: `PlainRow.expand`.
-/

namespace UriRouting

open Text

/-! ## Pieces -/

/-- A segment is made of texts that make up a piece. -/
def IsPiece (segment : List SegmentPart) (piece : List Char) : Prop :=
  ∃ texts : List String, segment = texts.map .literal ∧ (∀ s ∈ texts, s ≠ "") ∧ piece = (String.join texts).toList

theorem isPiece_nil : IsPiece [] [] := ⟨[], rfl, List.forall_mem_nil _, rfl⟩

/-- A text as it stands in a key: those of a host are in lower case. -/
def Side.keyText : Side → String → String
  | host, s => lowercase s
  | path, s => s

/-- The key that a piece becomes. -/
def Side.pieceKey (side : Side) (piece : List Char) : Key := .literal (side.keyText (String.ofList piece))

section

variable {segment : List SegmentPart} {piece : List Char}

theorem IsPiece.cons (h : IsPiece segment piece) {s : String} (hs : s ≠ "") :
    IsPiece (.literal s :: segment) (s.toList ++ piece) := by
  obtain ⟨texts, rfl, hall, rfl⟩ := h
  refine ⟨s :: texts, rfl, List.forall_mem_cons.mpr ⟨hs, hall⟩, ?_⟩
  rw [String.join_cons, String.toList_append]

theorem IsPiece.nil_iff (h : IsPiece segment piece) : segment = [] ↔ piece = [] := by
  obtain ⟨texts, rfl, hall, rfl⟩ := h
  cases texts with
  | nil => simp
  | cons s texts => simp [hall s List.mem_cons_self]

theorem joinTexts_literals {texts : List String} (hne : texts ≠ []) :
    joinTexts (texts.map .literal) = [.literal (String.join texts)] := by
  induction texts with
  | nil => exact absurd rfl hne
  | cons s texts ih =>
    rw [List.map_cons, joinTexts, String.join_cons]
    cases texts with
    | nil => simp [joinTexts]
    | cons s' texts => rw [ih (List.cons_ne_nil s' texts)]

theorem IsPiece.keyOf (h : IsPiece segment piece) (side : Side) : keyOf side segment = .ok (side.pieceKey piece) := by
  have hempty := h.nil_iff
  obtain ⟨texts, rfl, -, rfl⟩ := h
  cases texts with
  | nil => cases side <;> rfl
  | cons s texts =>
    have hjoin : String.join (s :: texts) ≠ "" := fun h =>
      List.cons_ne_nil _ _ (hempty.mpr (congrArg String.toList h))
    rw [UriRouting.keyOf, joinTexts_literals (List.cons_ne_nil s texts), Side.pieceKey, String.ofList_toList]
    cases side <;> simp [-String.join_cons, SegmentPart.isPresent, SegmentPart.onSide, Side.keyText, hjoin]

end

/-! ## Rows -/

/-- A row of delimiters, and of texts without them that are not empty, and what it is written as. -/
inductive PlainRow (sep : Char) : List (Part Slot) → List Char → Prop
  | nil : PlainRow sep [] []
  | delimiter {parts : List (Part Slot)} {cs : List Char} (rest : PlainRow sep parts cs) :
    PlainRow sep (.delimiter :: parts) (sep :: cs)
  | text {s : String} {parts : List (Part Slot)} {cs : List Char} (present : s ≠ "") (plain : sep ∉ s.toList)
    (rest : PlainRow sep parts cs) : PlainRow sep (.text s :: parts) (s.toList ++ cs)

namespace PlainRow

variable {sep : Char} {parts more : List (Part Slot)} {cs cs' : List Char}

theorem append (h : PlainRow sep parts cs) (h' : PlainRow sep more cs') :
    PlainRow sep (parts ++ more) (cs ++ cs') := by
  induction h with
  | nil => exact h'
  | delimiter _ ih => exact .delimiter ih
  | text present plain _ ih =>
    rw [List.append_assoc]
    exact .text present plain ih

/-- There are no rules to find, and there is one form. Cut at its delimiters, it is the text cut at them. -/
theorem exists_form (h : PlainRow sep parts cs) (c : Compiler) : ∃ row form,
    c.resolve 1 parts = .ok (row, 1) ∧ formsOf row = [form] ∧
      List.Forall₂ IsPiece (cutForm form) (splitAt sep cs) := by
  induction h with
  | nil => exact ⟨[], [], rfl, rfl, .cons isPiece_nil .nil⟩
  | delimiter _ ih =>
    obtain ⟨row, form, hresolve, hforms, hpieces⟩ := ih
    refine ⟨.delimiter :: row, .delimiter :: form, ?_, ?_, ?_⟩
    · rw [Compiler.resolve, Compiler.resolvePart]
      simp only [hresolve]
    · rw [formsOf, hforms]
      rfl
    · rw [splitAt, if_pos rfl]
      exact .cons isPiece_nil hpieces
  | @text s parts cs present plain _ ih =>
    obtain ⟨row, form, hresolve, hforms, hpieces⟩ := ih
    refine ⟨.text s :: row, .part (.literal s) :: form, ?_, ?_, ?_⟩
    · rw [Compiler.resolve, Compiler.resolvePart]
      simp only [hresolve]
    · rw [formsOf, hforms]
      rfl
    · cases hcut : cutForm form with
      | nil => exact absurd hcut (cutForm_ne_nil _)
      | cons segment segments =>
        cases hsplit : splitAt sep cs with
        | nil => exact absurd hsplit (splitAt_ne_nil _ _)
        | cons piece pieces =>
          rw [hcut, hsplit] at hpieces
          cases hpieces with
          | cons hhead htail =>
            rw [splitAt_append plain hsplit, cutForm, hcut]
            exact .cons (hhead.cons present) htail

/-- The pieces that are not empty are the one row of keys, if they are not too many. -/
theorem expand (h : PlainRow sep parts cs) (c : Compiler) (side : Side) :
    c.expand side parts =
      if c.config.maxSegments < (fullPieces sep cs).length then .error (.tooManySegments c.config.maxSegments)
      else .ok [(fullPieces sep cs).map side.pieceKey] := by
  obtain ⟨row, form, hresolve, hforms, hcut⟩ := h.exists_form c
  have hpieces : List.Forall₂ IsPiece (segmentsOf form) (fullPieces sep cs) := by
    refine List.rel_filter ?_ hcut
    intro segment piece hpiece
    have hempty := hpiece.nil_iff
    cases segment <;> cases piece <;> simp_all
  have hkeys : (segmentsOf form).mapM (keyOf side) = .ok ((fullPieces sep cs).map side.pieceKey) :=
    mapM_ok_iff.mpr (List.forall₂_map_right_iff.mpr (hpieces.imp fun _ _ h => h.keyOf side))
  rw [Compiler.expand_eq, hresolve]
  simp only [hforms, List.mapM_cons, Compiler.keysOf, hpieces.length_eq, hkeys]
  split <;> rfl

end PlainRow

end UriRouting

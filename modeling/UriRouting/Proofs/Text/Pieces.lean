import Mathlib.Data.List.Induction
import Mathlib.Data.List.TakeWhile
import UriRouting.Router.Search
import UriRouting.Proofs.Text.LetterCase
/-!
The pieces of a host or path that are not empty.

Separators at the ends of a text cut off empty pieces only. Where a request has no empty segment or
label, its pieces are therefore those of the text as it is, whatever is trimmed.
-/

namespace UriRouting

namespace Text

/-- Splitting leaves a text without separators at the first piece. -/
theorem splitAt_append {sep : Char} {front back piece : List Char} {rest : List (List Char)}
    (hfront : sep ∉ front) (hback : splitAt sep back = piece :: rest) :
    splitAt sep (front ++ back) = (front ++ piece) :: rest := by
  induction front with
  | nil => exact hback
  | cons c front ih =>
    obtain ⟨hc, hfront⟩ := List.ne_and_not_mem_of_not_mem_cons hfront
    rw [List.cons_append, splitAt, if_neg (Ne.symm hc), ih hfront]
    rfl

theorem splitAt_map {sep : Char} {f : Char → Char} (h : ∀ c, f c = sep ↔ c = sep) (cs : List Char) :
    splitAt sep (cs.map f) = (splitAt sep cs).map (·.map f) := by
  induction cs with
  | nil => rfl
  | cons c cs ih =>
    rw [List.map_cons, splitAt, splitAt, ih]
    simp only [h]
    split
    · rfl
    · cases splitAt sep cs <;> rfl

theorem mem_of_mem_splitAt {sep c : Char} {cs piece : List Char} (h : piece ∈ splitAt sep cs)
    (hc : c ∈ piece) : c ∈ cs := by
  induction cs generalizing piece with
  | nil =>
    rw [splitAt, List.mem_singleton] at h
    subst h
    cases hc
  | cons d cs ih =>
    rw [splitAt] at h
    split at h
    · rcases List.mem_cons.mp h with rfl | h
      · cases hc
      · exact List.mem_cons_of_mem d (ih h hc)
    · cases hpieces : splitAt sep cs with
      | nil => exact absurd hpieces (splitAt_ne_nil sep cs)
      | cons first others =>
        rw [hpieces] at h ih
        rcases List.mem_cons.mp h with rfl | h
        · rcases List.mem_cons.mp hc with rfl | hc
          · exact List.mem_cons_self
          · exact List.mem_cons_of_mem d (ih List.mem_cons_self hc)
        · exact List.mem_cons_of_mem d (ih (List.mem_cons_of_mem first h) hc)

/-- What is no separator is in one of the pieces. -/
theorem exists_mem_splitAt {sep c : Char} {cs : List Char} (hc : c ∈ cs) (hne : c ≠ sep) :
    ∃ piece ∈ splitAt sep cs, c ∈ piece := by
  induction cs with
  | nil => cases hc
  | cons d cs ih =>
    rw [splitAt]
    split
    · next hsep =>
      obtain ⟨piece, hpiece, hmem⟩ := ih (List.mem_of_ne_of_mem (fun h => hne (h.trans hsep)) hc)
      exact ⟨piece, List.mem_cons_of_mem _ hpiece, hmem⟩
    · cases hpieces : splitAt sep cs with
      | nil => exact absurd hpieces (splitAt_ne_nil sep cs)
      | cons first others =>
        rcases List.mem_cons.mp hc with rfl | hc
        · exact ⟨_, List.mem_cons_self, List.mem_cons_self⟩
        · obtain ⟨piece, hpiece, hmem⟩ := ih hc
          rw [hpieces] at hpiece
          rcases List.mem_cons.mp hpiece with rfl | hpiece
          · exact ⟨_, List.mem_cons_self, List.mem_cons_of_mem d hmem⟩
          · exact ⟨piece, List.mem_cons_of_mem _ hpiece, hmem⟩

/-- The pieces of a text that are not empty. -/
def fullPieces (sep : Char) (cs : List Char) : List (List Char) := (splitAt sep cs).filter (· ≠ [])

theorem fullPieces_dropWhile (sep : Char) (cs : List Char) :
    fullPieces sep (cs.dropWhile (· = sep)) = fullPieces sep cs := by
  induction cs with
  | nil => rfl
  | cons c cs ih =>
    rw [List.dropWhile_cons]
    split
    · next hc =>
      rw [ih, fullPieces, fullPieces, splitAt, if_pos (of_decide_eq_true hc)]
      rfl
    · rfl

theorem fullPieces_trimEnd (sep : Char) (cs : List Char) :
    fullPieces sep (trimEnd (· = sep) cs) = fullPieces sep cs := by
  induction cs using List.reverseRecOn with
  | nil => rfl
  | append_singleton cs c ih =>
    rw [trimEnd, List.reverse_concat, List.dropWhile_cons]
    split
    · next hc =>
      have hcut : fullPieces sep (cs ++ [c]) = fullPieces sep cs := by
        rw [fullPieces, of_decide_eq_true hc, splitAt_append_cons, List.filter_append]
        exact List.append_nil _
      rw [hcut]
      exact ih
    · rw [List.reverse_cons, List.reverse_reverse]

theorem fullPieces_trimBoth (sep : Char) (cs : List Char) :
    fullPieces sep (trimBoth (· = sep) cs) = fullPieces sep cs :=
  (fullPieces_trimEnd sep _).trans (fullPieces_dropWhile sep cs)

theorem fullPieces_map {sep : Char} {f : Char → Char} (h : ∀ c, f c = sep ↔ c = sep) (cs : List Char) :
    fullPieces sep (cs.map f) = (fullPieces sep cs).map (·.map f) := by
  rw [fullPieces, splitAt_map h, List.filter_map, fullPieces]
  congr 1
  refine List.filter_congr fun piece _ => ?_
  cases piece <;> rfl

end Text

open Text

theorem piecesOf_eq {sep : Char} {cs : List Char} (h : "" ∉ piecesOf sep cs) :
    piecesOf sep cs = (fullPieces sep cs).map String.ofList := by
  unfold piecesOf at h ⊢
  split
  · next hnil =>
    rw [hnil]
    rfl
  · next hne =>
    rw [if_neg hne] at h
    rw [fullPieces, List.filter_eq_self.mpr]
    intro piece hpiece
    refine decide_eq_true fun hnil => h (List.mem_map.mpr ⟨piece, hpiece, ?_⟩)
    rw [hnil]

/-- The segments of a path are its pieces, if none is empty. -/
theorem segmentsOfPath_eq {path : String} (h : "" ∉ segmentsOfPath path) :
    segmentsOfPath path = (fullPieces '/' path.toList).map String.ofList := by
  have htrim : fullPieces '/' (trimBoth UriTemplate.isSlash path.toList) = fullPieces '/' path.toList :=
    fullPieces_trimBoth '/' path.toList
  rw [segmentsOfPath, piecesOf_eq h, htrim]

theorem normalizeHost_eq {host : String} (hbracket : '[' ∉ host.toList) (hcolon : ':' ∉ host.toList) :
    (normalizeHost host).toList = (trimEnd (· = '.') host.toList).map Char.toLower := by
  have hport : withoutPort host.toList = host.toList := by
    have htake : host.toList.takeWhile (· ≠ ':') = host.toList :=
      List.takeWhile_eq_self_iff.mpr fun c hc => decide_eq_true fun h => hcolon (h ▸ hc)
    unfold withoutPort
    split
    · next hhost =>
      rw [hhost] at hbracket
      exact absurd List.mem_cons_self hbracket
    · exact htake
  rw [normalizeHost, String.toList_ofList, hport]

/-- The labels of a host without port or brackets are its pieces from the last one on, the ASCII
letters in lower case, if none is empty. -/
theorem labelsOf_eq {host : String} (hbracket : '[' ∉ host.toList) (hcolon : ':' ∉ host.toList)
    (h : "" ∉ labelsOf host) : labelsOf host =
      ((fullPieces '.' host.toList).map fun label => lowercaseAscii (String.ofList label)).reverse := by
  have hlower : ∀ c : Char, c.toLower = '.' ↔ c = '.' := fun c => toLower_eq_low (by decide)
  have htrim : fullPieces '.' ((trimEnd (· = '.') host.toList).map Char.toLower)
      = (fullPieces '.' host.toList).map (·.map Char.toLower) := by
    rw [fullPieces_map hlower, fullPieces_trimEnd]
  rw [labelsOf, List.mem_reverse] at h
  rw [labelsOf, piecesOf_eq h, normalizeHost_eq hbracket hcolon, htrim, List.map_map]
  congr 2
  funext label
  rw [Function.comp_apply, lowercaseAscii, String.toList_ofList]

end UriRouting

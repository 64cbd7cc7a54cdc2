import Mathlib.Data.List.TakeWhile
import UriRouting.Route.Tree
/-!
The host of a template in a group, as a text.

Hosts are joined as texts, and the separators at the ends of either are trimmed. Neither trimming reaches
across the place where they meet: `GroupOptions.source_applyTemplate`.
-/

namespace UriRouting

open Text

/-! ## Trimming -/

namespace Text

theorem trimEnd_append {p : Char → Bool} (front : List Char) {back : List Char}
    (h : trimEnd p back ≠ []) : trimEnd p (front ++ back) = front ++ trimEnd p back := by
  have hback : back.reverse.dropWhile p ≠ [] := fun hnil => h (by rw [trimEnd, hnil]; rfl)
  rw [trimEnd, List.reverse_append, List.dropWhile_append, if_neg (by simpa using hback),
    List.reverse_append, List.reverse_reverse]
  rfl

/-- A trimmed text begins with a character that is not trimmed. -/
theorem dropWhile_trimBoth {p : Char → Bool} {cs : List Char} (h : trimBoth p cs ≠ [])
    (back : List Char) : (trimBoth p cs ++ back).dropWhile p = trimBoth p cs ++ back := by
  obtain ⟨rest, hrest⟩ : trimBoth p cs <+: cs.dropWhile p := by
    rw [← List.reverse_suffix, trimBoth, trimEnd, List.reverse_reverse]
    exact List.dropWhile_suffix p
  have hhead := List.head?_dropWhile_not p cs
  rw [← hrest] at hhead
  cases htrim : trimBoth p cs with
  | nil => exact absurd htrim h
  | cons c trimmed =>
    rw [htrim] at hhead
    rw [List.cons_append, List.dropWhile_cons_of_neg (by simpa using hhead)]

theorem trimBoth_append {p : Char → Bool} {cs cs' : List Char} (h : trimBoth p cs ≠ [])
    (h' : trimBoth p cs' ≠ []) (between : List Char) :
    trimBoth p (trimBoth p cs ++ (between ++ cs'.dropWhile p))
      = trimBoth p cs ++ (between ++ trimBoth p cs') := by
  have hends : trimEnd p (between ++ cs'.dropWhile p) = between ++ trimBoth p cs' :=
    trimEnd_append between h'
  rw [trimBoth, dropWhile_trimBoth h, trimEnd_append, hends]
  rw [hends]
  exact List.append_ne_nil_of_right_ne_nil _ h'

theorem mem_of_mem_trimBoth {p : Char → Bool} {c : Char} {cs : List Char} (h : c ∈ trimBoth p cs) :
    c ∈ cs := by
  rw [trimBoth, trimEnd, List.mem_reverse] at h
  have hstart := List.mem_reverse.mp ((List.dropWhile_sublist p).subset h)
  exact (List.dropWhile_sublist p).subset hstart

end Text

/-! ## Templates -/

namespace UriTemplate

/-- A host without the separators at its ends. -/
def trimmedHost (host : String) : List Char := trimBoth isSeparator host.toList

theorem source_congr {t t' : UriTemplate} (hhost : t.host? = t'.host?) (hpath : t.path = t'.path) :
    t.source = t'.source := by
  rw [source, source, hhost, hpath]

theorem source_withHost (t : UriTemplate) (host : String) :
    (t.withHost host).source.toList = trimmedHost host ++ t.path.toList := by
  have hhost : ((t.withHost host).host?.getD "").toList = trimmedHost host := by
    unfold withHost trimmedHost
    dsimp only
    split
    · next hnil =>
      rw [hnil]
      rfl
    · exact String.toList_ofList
  rw [source, String.toList_append, hhost]
  rfl

theorem prefixPath_path {t : UriTemplate} (h : ∃ rest, t.path.toList = '/' :: rest)
    (segments : String) : ∃ rest, (t.prefixPath segments).path.toList = '/' :: rest := by
  unfold prefixPath
  dsimp only
  split
  · exact h
  · exact ⟨_, by rw [String.append_assoc, String.toList_append]; rfl⟩

theorem prefixPath_host (t : UriTemplate) (segments : String) :
    (t.prefixPath segments).host? = t.host? := by
  unfold prefixPath
  dsimp only
  split <;> rfl

/-- What is put between a host and the labels that come after it. -/
theorem toList_joinHost (host : List Char) (suffix : String) : ∃ between,
    (joinHost (some (String.ofList host)) suffix).toList = host ++ (between ++ suffix.toList) ∧
      (between = ['.'] ∨ between = [] ∧ ∃ front, host = front ++ [']']) := by
  unfold joinHost
  dsimp only
  split
  · next hends =>
    refine ⟨[], by rw [String.toList_append, String.toList_ofList]; rfl, Or.inr ⟨rfl, ?_⟩⟩
    rw [String.endsWith_eq_endsWith_toSlice, String.Slice.endsWith_string_iff, String.copy_toSlice,
      String.toList_ofList] at hends
    obtain ⟨front, hfront⟩ := hends
    exact ⟨front ++ ['.'], by rw [← hfront.trans String.toList_ofList, List.append_assoc]; rfl⟩
  · refine ⟨['.'], ?_, Or.inl rfl⟩
    rw [String.toList_append, String.toList_append, String.toList_ofList, List.append_assoc]
    rfl

theorem dropWhile_separator {cs : List Char} (h : '/' ∉ cs) :
    cs.dropWhile (· = '.') = cs.dropWhile isSeparator := by
  induction cs with
  | nil => rfl
  | cons c cs ih =>
    obtain ⟨hc, hcs⟩ := List.ne_and_not_mem_of_not_mem_cons h
    have hseparator : isSeparator c = decide (c = '.') := by
      rw [isSeparator, decide_eq_false (Ne.symm hc), Bool.false_or]
    rw [List.dropWhile_cons, List.dropWhile_cons, hseparator, ih hcs]

end UriTemplate

/-! ## Groups -/

open UriTemplate (trimmedHost)

theorem GroupOptions.exists_appendHost {o : GroupOptions} {suffix : String}
    (hsuffix : o.host? = some suffix) {t : UriTemplate} (hpath : ∃ rest, t.path.toList = '/' :: rest) :
    ∃ t' : UriTemplate, t'.host? = t.host? ∧ (∃ rest, t'.path.toList = '/' :: rest) ∧
      (o.applyTemplate t).source = (t'.appendHost suffix).source := by
  unfold applyTemplate
  rw [hsuffix]
  cases o.segments? with
  | none => exact ⟨t, rfl, hpath, UriTemplate.source_congr rfl rfl⟩
  | some segments =>
    have hhost := t.prefixPath_host segments
    have hpath' := UriTemplate.prefixPath_path hpath segments
    dsimp only
    generalize t.prefixPath segments = t' at hhost hpath' ⊢
    exact ⟨t', hhost, hpath', UriTemplate.source_congr rfl rfl⟩

/-- In a group with a host, the host of a template is followed by that of the group, with a period between
them unless the former ends with a bracket. -/
theorem GroupOptions.source_applyTemplate {o : GroupOptions} {host suffix : String} (path : String)
    (hsuffix : o.host? = some suffix) (hslash : '/' ∉ suffix.toList) (hhost : trimmedHost host ≠ [])
    (hrest : trimmedHost suffix ≠ []) : ∃ between rest,
      (o.applyTemplate ((UriTemplate.ofPath path).withHost host)).source.toList
        = trimmedHost host ++ (between ++ trimmedHost suffix) ++ '/' :: rest ∧
      (between = ['.'] ∨ between = [] ∧ ∃ front, trimmedHost host = front ++ [']']) := by
  have ht : ((UriTemplate.ofPath path).withHost host).host?
      = some (String.ofList (trimmedHost host)) := if_neg hhost
  obtain ⟨t, ht', ⟨rest, hpath⟩, hsource⟩ := o.exists_appendHost hsuffix
    (t := (UriTemplate.ofPath path).withHost host) ⟨_, String.toList_ofList⟩
  obtain ⟨between, hlist, hbetween⟩ := UriTemplate.toList_joinHost (trimmedHost host)
    (String.ofList (suffix.toList.dropWhile (· = '.')))
  refine ⟨between, rest, ?_, hbetween⟩
  rw [hsource, UriTemplate.appendHost, UriTemplate.source_withHost, hpath, trimmedHost, ht', ht, hlist,
    String.toList_ofList, UriTemplate.dropWhile_separator hslash]
  exact congrArg (· ++ _) (Text.trimBoth_append hhost hrest between)

end UriRouting

import Mathlib.Data.List.Lex
import UriRouting.Proofs.Trie.Events
import UriRouting.Proofs.Trie.Names
/-!
How a segment is cut for a row of variables and texts.

`Cut` says what a cut is: texts stand as they are, values are not empty and hold no line break. Cutting
works from the end of a segment to its start and keeps one cut for each place. `cut?_eq_some_iff` says that
the cut it keeps is the least one: its first value is as short as that of any other cut, then its second,
and so on.
-/

namespace UriRouting

/-! ## Cuts -/

/-- The values that a row of parts gets from a segment when it is cut in some way. -/
inductive Cut : List SegmentPart → List Char → Values → Prop
  | nil : Cut [] [] []
  | literal (text : String) {parts : List SegmentPart} {cs : List Char} {values : Values}
    (rest : Cut parts cs values) : Cut (.literal text :: parts) (text.toList ++ cs) values
  | var (v : Variable) {parts : List SegmentPart} {value cs : List Char} {values : Values}
    (nonempty : value ≠ []) (unbroken : '\n' ∉ value) (rest : Cut parts cs values) :
    Cut (.var v :: parts) (value ++ cs) (value :: values)

def Values.lengths (values : Values) : List Nat := values.map List.length

/-- A cut whose lengths come before those of all others, in the order in which words are listed. -/
structure LeastCut (parts : List SegmentPart) (cs : List Char) (values : Values) : Prop where
  cut : Cut parts cs values
  least : ∀ other, Cut parts cs other → values.lengths ≤ other.lengths

section

variable {parts : List SegmentPart} {cs : List Char} {values : Values}

theorem cut_nil_iff : Cut [] cs values ↔ cs = [] ∧ values = [] := by
  constructor
  · intro h
    cases h
    exact ⟨rfl, rfl⟩
  · rintro ⟨rfl, rfl⟩
    exact .nil

theorem cut_literal_iff {text : String} :
    Cut (.literal text :: parts) cs values ↔
      ∃ rest, cs = text.toList ++ rest ∧ Cut parts rest values := by
  constructor
  · intro h
    cases h with
    | literal _ rest => exact ⟨_, rfl, rest⟩
  · rintro ⟨rest, rfl, h⟩
    exact .literal text h

theorem cut_var_iff {v : Variable} :
    Cut (.var v :: parts) cs values ↔ ∃ value rest later, value ≠ [] ∧ '\n' ∉ value ∧
      cs = value ++ rest ∧ values = value :: later ∧ Cut parts rest later := by
  constructor
  · intro h
    cases h with
    | var _ nonempty unbroken rest => exact ⟨_, _, _, nonempty, unbroken, rfl, rfl, rest⟩
  · rintro ⟨value, rest, later, hne, hline, rfl, rfl, h⟩
    exact .var v hne hline h

/-- A cut is known by the lengths of its values. -/
theorem Cut.eq_of_lengths {other : Values} (h : Cut parts cs values) (h' : Cut parts cs other)
    (hlengths : values.lengths = other.lengths) : values = other := by
  induction h generalizing other with
  | nil =>
    cases h'
    rfl
  | literal text _ ih =>
    obtain ⟨rest, hcs, hrest⟩ := cut_literal_iff.mp h'
    rw [← List.append_cancel_left hcs] at hrest
    exact ih hrest hlengths
  | @var v parts value cs values _ _ _ ih =>
    obtain ⟨value', rest, later, -, -, hcs, rfl, hrest⟩ := cut_var_iff.mp h'
    obtain ⟨hlength, hlater⟩ := List.cons.inj hlengths
    obtain ⟨rfl, rfl⟩ := List.append_inj hcs hlength
    rw [ih hrest hlater]

/-- There is a value for each variable. -/
theorem Cut.length_eq (h : Cut parts cs values) :
    values.length = (parts.filterMap SegmentPart.var?).length := by
  induction h with
  | nil => rfl
  | literal text _ ih => exact ih
  | var v _ _ _ ih => exact congrArg (· + 1) ih

theorem LeastCut.unique {other : Values} (h : LeastCut parts cs values) (h' : LeastCut parts cs other) :
    values = other :=
  h.cut.eq_of_lengths h'.cut (le_antisymm (h.least other h'.cut) (h'.least values h.cut))

end

/-! ## Trying

A search that goes back whenever it is stuck makes each value as short as it can, and longer only when
nothing else is left to try. -/

/-- A value that begins one character earlier. -/
def Values.grow (c : Char) : Values → Values
  | [] => []
  | value :: later => (c :: value) :: later

/-- What is found when a value ends as soon as it can and `rest` goes on behind it, in order. -/
def triesOfValue (rest : List Char → List Values) : List Char → List Values
  | [] => []
  | c :: cs =>
    if c = '\n' then []
    else (rest cs).map ([c] :: ·) ++ (triesOfValue rest cs).map (Values.grow c)

/-- All that a search for cuts comes upon, in order. -/
def tries : List SegmentPart → List Char → List Values
  | [], cs => if cs = [] then [[]] else []
  | .literal text :: parts, cs =>
    if text.toList.isPrefixOf cs then tries parts (cs.drop text.toList.length) else []
  | .var _ :: parts, cs => triesOfValue (tries parts) cs

theorem mem_triesOfValue {rest : List Char → List Values} {cs : List Char} {values : Values} :
    values ∈ triesOfValue rest cs ↔ ∃ value behind later, value ≠ [] ∧ '\n' ∉ value ∧
      cs = value ++ behind ∧ values = value :: later ∧ later ∈ rest behind := by
  induction cs generalizing values with
  | nil =>
    constructor
    · intro h
      cases h
    · rintro ⟨value, behind, later, hne, -, hcs, -⟩
      exact absurd (List.append_eq_nil_iff.mp hcs.symm).1 hne
  | cons c cs ih =>
    rw [triesOfValue]
    constructor
    · intro h
      split at h
      · cases h
      · next hline =>
        rcases List.mem_append.mp h with h | h
        · obtain ⟨later, hlater, rfl⟩ := List.mem_map.mp h
          refine ⟨[c], cs, later, List.cons_ne_nil _ _, ?_, rfl, rfl, hlater⟩
          simpa using Ne.symm hline
        · obtain ⟨grown, hgrown, rfl⟩ := List.mem_map.mp h
          obtain ⟨value, behind, later, -, hunbroken, rfl, rfl, hlater⟩ := ih.mp hgrown
          refine ⟨c :: value, behind, later, List.cons_ne_nil _ _, ?_, rfl, rfl, hlater⟩
          simpa using ⟨Ne.symm hline, hunbroken⟩
    · rintro ⟨value, behind, later, hne, hunbroken, hcs, rfl, hlater⟩
      cases value with
      | nil => exact absurd rfl hne
      | cons d value =>
        obtain ⟨rfl, rfl⟩ := List.cons.inj hcs
        obtain ⟨hline, hunbroken⟩ := not_or.mp (mt List.mem_cons.mpr hunbroken)
        rw [if_neg (Ne.symm hline), List.mem_append, List.mem_map, List.mem_map]
        cases value with
        | nil => exact .inl ⟨later, hlater, rfl⟩
        | cons e value =>
          exact .inr ⟨(e :: value) :: later, ih.mpr ⟨e :: value, behind, later, List.cons_ne_nil _ _,
            hunbroken, rfl, rfl, hlater⟩, rfl⟩

/-- A search comes upon all cuts and nothing else. -/
theorem mem_tries {parts : List SegmentPart} {cs : List Char} {values : Values} :
    values ∈ tries parts cs ↔ Cut parts cs values := by
  induction parts generalizing cs values with
  | nil =>
    rw [tries, cut_nil_iff]
    split <;> simp_all
  | cons part parts ih =>
    cases part with
    | literal text =>
      rw [tries, cut_literal_iff]
      split
      · next hstart =>
        obtain ⟨rest, rfl⟩ := List.isPrefixOf_iff_prefix.mp hstart
        rw [List.drop_left, ih]
        constructor
        · exact fun h => ⟨rest, rfl, h⟩
        · rintro ⟨rest', heq, h⟩
          rwa [List.append_cancel_left heq]
      · next hstart =>
        constructor
        · intro h
          cases h
        · rintro ⟨rest, rfl, -⟩
          exact absurd (List.isPrefixOf_iff_prefix.mpr (List.prefix_append _ _)) hstart
    | var v => simp only [tries, mem_triesOfValue, cut_var_iff, ih]

theorem grow_lengths_lt {c : Char} {values values' : Values} (h : values.lengths < values'.lengths) :
    (values.grow c).lengths < (values'.grow c).lengths := by
  cases values with
  | nil =>
    cases values' with
    | nil => exact h
    | cons => exact List.nil_lt_cons _ _
  | cons value later =>
    cases values' with
    | nil => exact absurd h (List.not_lt_nil _)
    | cons value' later' =>
      rcases List.cons_lt_cons_iff.mp h with h | ⟨h, hlater⟩
      · exact List.cons_lt_cons_iff.mpr (.inl (Nat.add_lt_add_right h 1))
      · exact List.cons_lt_cons_iff.mpr (.inr ⟨congrArg (· + 1) h, hlater⟩)

theorem triesOfValue_sorted {rest : List Char → List Values}
    (hrest : ∀ cs, (rest cs).Pairwise fun a b => a.lengths < b.lengths) (cs : List Char) :
    (triesOfValue rest cs).Pairwise fun a b => a.lengths < b.lengths := by
  induction cs with
  | nil => exact .nil
  | cons c cs ih =>
    rw [triesOfValue]
    split
    · exact .nil
    · refine List.pairwise_append.mpr ⟨?_, ?_, ?_⟩
      · refine List.pairwise_map.mpr ((hrest cs).imp fun h => ?_)
        exact List.cons_lt_cons_iff.mpr (.inr ⟨rfl, h⟩)
      · exact List.pairwise_map.mpr (ih.imp grow_lengths_lt)
      · -- A value that has grown is longer than one character.
        intro a ha b hb
        obtain ⟨later, -, rfl⟩ := List.mem_map.mp ha
        obtain ⟨grown, hgrown, rfl⟩ := List.mem_map.mp hb
        obtain ⟨value, behind, later', hne, -, -, rfl, -⟩ := mem_triesOfValue.mp hgrown
        refine List.cons_lt_cons_iff.mpr (.inl ?_)
        exact Nat.succ_lt_succ (List.length_pos_of_ne_nil hne)

theorem tries_sorted (parts : List SegmentPart) (cs : List Char) :
    (tries parts cs).Pairwise fun a b => a.lengths < b.lengths := by
  induction parts generalizing cs with
  | nil =>
    rw [tries]
    split
    · exact List.pairwise_singleton _ _
    · exact .nil
  | cons part parts ih =>
    cases part with
    | literal text =>
      rw [tries]
      split
      · exact ih _
      · exact .nil
    | var v => exact triesOfValue_sorted ih cs

/-- What a search comes upon first is the least cut. -/
theorem leastCut_of_tries {parts : List SegmentPart} {cs : List Char} {values : Values}
    (h : (tries parts cs).head? = some values) : LeastCut parts cs values := by
  obtain ⟨later, htries⟩ := List.head?_eq_some_iff.mp h
  refine ⟨mem_tries.mp (htries ▸ List.mem_cons_self), fun other hother => ?_⟩
  have hmem := mem_tries.mpr hother
  have hsorted := tries_sorted parts cs
  rw [htries] at hmem hsorted
  rcases List.mem_cons.mp hmem with rfl | hmem
  · exact le_refl _
  · exact le_of_lt ((List.pairwise_cons.mp hsorted).1 other hmem)

theorem exists_head?_tries {parts : List SegmentPart} {cs : List Char} {values : Values}
    (h : Cut parts cs values) : ∃ first, (tries parts cs).head? = some first := by
  rw [← Option.isSome_iff_exists, List.isSome_head?]
  exact List.ne_nil_of_mem (mem_tries.mpr h)

/-! ## Cutting place by place

Cutting remembers for each place of a segment what a search from there would come upon first, so that
nothing is tried twice. -/

/-- The cut that is kept for a whole text. -/
def cut? (parts : List SegmentPart) (cs : List Char) : Option Values := (cuts cs parts).head?.join

/-- What is kept for later places does not depend on what is before them. -/
theorem cuts_tail (parts : List SegmentPart) (c : Char) (cs : List Char) :
    (cuts (c :: cs) parts).tail = cuts cs parts := by
  induction parts with
  | nil => rfl
  | cons part parts ih =>
    cases part with
    | literal text => rw [cuts, cutLiteral, List.tail_cons, ih, cuts]
    | var v => rw [cuts, cutValue, List.tail_cons, ih, cuts]

theorem cuts_drop (parts : List SegmentPart) (front cs : List Char) :
    (cuts (front ++ cs) parts).drop front.length = cuts cs parts := by
  induction front with
  | nil => rfl
  | cons c front ih =>
    rw [List.cons_append, List.length_cons, ← List.drop_tail, cuts_tail]
    exact ih

theorem cut?_literal (text : String) (parts : List SegmentPart) (cs : List Char) :
    cut? (.literal text :: parts) cs
      = if text.toList.isPrefixOf cs then cut? parts (cs.drop text.toList.length) else none := by
  have hhead : cut? (.literal text :: parts) cs
      = if text.toList.isPrefixOf cs then ((cuts cs parts).drop text.toList.length).head?.join
        else none := by
    cases cs <;> rfl
  rw [hhead]
  split
  · next hstart =>
    obtain ⟨rest, rfl⟩ := List.isPrefixOf_iff_prefix.mp hstart
    rw [cuts_drop, List.drop_left, cut?]
  · rfl

theorem cut?_var (v : Variable) (parts : List SegmentPart) (c : Char) (cs : List Char) :
    cut? (.var v :: parts) (c :: cs)
      = if c = '\n' then none
        else ((cut? parts cs).map ([c] :: ·)).or ((cut? (.var v :: parts) cs).map (Values.grow c)) := by
  unfold cut?
  rw [cuts, cutValue, cuts_tail, cuts, List.head?_cons, Option.join_some]
  cases (cuts cs parts).head?.join with
  | some values => rfl
  | none =>
    cases hlater : (cutValue cs (cuts cs parts)).head?.join with
    | none => rfl
    | some values =>
      obtain ⟨value, later, rfl, -⟩ := mem_of_mem_cutValue (mem_of_head?_join hlater)
      rfl

theorem cut?_eq_head? (parts : List SegmentPart) (cs : List Char) :
    cut? parts cs = (tries parts cs).head? := by
  induction parts generalizing cs with
  | nil => cases cs <;> rfl
  | cons part parts ih =>
    cases part with
    | literal text =>
      rw [cut?_literal, tries]
      split
      · exact ih _
      · rfl
    | var v =>
      induction cs with
      | nil => rfl
      | cons c cs ihcs =>
        rw [cut?_var, ih, ihcs, tries, tries, triesOfValue]
        split
        · rfl
        · rw [List.head?_append, List.head?_map, List.head?_map]

/-- The cut that is kept is the least one. -/
theorem cut?_eq_some_iff {parts : List SegmentPart} {cs : List Char} {values : Values} :
    cut? parts cs = some values ↔ LeastCut parts cs values := by
  rw [cut?_eq_head?]
  constructor
  · exact leastCut_of_tries
  · intro h
    obtain ⟨first, hfirst⟩ := exists_head?_tries h.cut
    rw [hfirst, (leastCut_of_tries hfirst).unique h]

theorem Cut.exists_least {parts : List SegmentPart} {cs : List Char} {values : Values}
    (h : Cut parts cs values) : ∃ least, LeastCut parts cs least := by
  obtain ⟨first, hfirst⟩ := exists_head?_tries h
  exact ⟨first, leastCut_of_tries hfirst⟩

end UriRouting

import UriRouting.Proofs.Trie.Nodes
/-!
Lookups after an insertion.

A lookup follows keys that are the same as those of its row, so that all rows that are the same lead to
one node. Being the same goes both ways and on from one key to the next; a key with `nan` among its
parameters is not the same as itself, and nothing here asks for that. `getD_find?_insert` says what an
insertion changes for lookups: what is found along rows that are the same as the inserted one.
-/

namespace UriRouting

/-! ## From key to key -/

theorem pairwiseSame_trans {α : Type} (same : α → α → Bool)
    (h : ∀ {a b c}, same a b = true → same b c = true → same a c = true) {as bs cs : List α}
    (hab : pairwiseSame same as bs = true) (hbc : pairwiseSame same bs cs = true) :
    pairwiseSame same as cs = true := by
  induction as generalizing bs cs with
  | nil =>
    cases bs with
    | nil => exact hbc
    | cons b bs => cases hab
  | cons a as ih =>
    cases bs with
    | nil => cases hab
    | cons b bs =>
      cases cs with
      | nil => cases hbc
      | cons c cs =>
        rw [pairwiseSame, Bool.and_eq_true] at hab hbc
        rw [pairwiseSame, h hab.1 hbc.1, ih hab.2 hbc.2]
        rfl

theorem equal_trans {x y z : Numeric.Binary64} (hxy : x.equal y = true) (hyz : y.equal z = true) :
    x.equal z = true := by
  unfold Numeric.Binary64.equal at *
  cases hx : x.rank? with
  | none => simp [hx] at hxy
  | some i =>
    cases hy : y.rank? with
    | none => simp [hx, hy] at hxy
    | some j =>
      cases hz : z.rank? with
      | none => simp [hy, hz] at hyz
      | some k =>
        simp only [hx, hy, hz, decide_eq_true_eq] at hxy hyz ⊢
        omega

theorem Param.same_trans {p q r : Param} (hpq : p.same q = true) (hqr : q.same r = true) :
    p.same r = true := by
  cases p with
  | int i => cases q <;> cases r <;> simp_all [Param.same]
  | str s => cases q <;> cases r <;> simp_all [Param.same]
  | float x =>
    cases q with
    | int | str => cases hpq
    | float y =>
      cases r with
      | int | str => cases hqr
      | float z => exact equal_trans hpq hqr

theorem RuleSpec.same_trans {a b c : RuleSpec} (hab : a.same b = true) (hbc : b.same c = true) :
    a.same c = true := by
  rw [RuleSpec.same, Bool.and_eq_true, decide_eq_true_eq] at *
  exact ⟨hab.1.trans hbc.1, pairwiseSame_trans Param.same Param.same_trans hab.2 hbc.2⟩

theorem Variable.same_trans {a b c : Variable} (hab : a.same b = true) (hbc : b.same c = true) :
    a.same c = true := by
  rw [Variable.same, Bool.and_eq_true, decide_eq_true_eq] at *
  exact ⟨hab.1.trans hbc.1, pairwiseSame_trans RuleSpec.same RuleSpec.same_trans hab.2 hbc.2⟩

theorem SegmentPart.same_trans {a b c : SegmentPart} (hab : a.same b = true) (hbc : b.same c = true) :
    a.same c = true := by
  cases a with
  | literal s => cases b <;> cases c <;> simp_all [SegmentPart.same]
  | var v =>
    cases b with
    | literal t => cases hab
    | var w =>
      cases c with
      | literal t => cases hbc
      | var u => exact Variable.same_trans hab hbc

theorem SegmentPattern.same_trans {a b c : SegmentPattern} (hab : a.same b = true)
    (hbc : b.same c = true) : a.same c = true :=
  pairwiseSame_trans SegmentPart.same SegmentPart.same_trans hab hbc

theorem Key.same_trans {a b c : Key} (hab : a.same b = true) (hbc : b.same c = true) :
    a.same c = true := by
  cases a with
  | literal s => cases b <;> cases c <;> simp_all [Key.same]
  | pattern p =>
    cases b with
    | literal t => cases hab
    | pattern q =>
      cases c with
      | literal t => cases hbc
      | pattern r => exact SegmentPattern.same_trans hab hbc

/-- Whether two rows are the same key by key. -/
def sameRow (a b : List Key) : Bool := pairwiseSame Key.same a b

theorem sameRow_trans {a b c : List Key} (hab : sameRow a b = true) (hbc : sameRow b c = true) :
    sameRow a c = true :=
  pairwiseSame_trans Key.same Key.same_trans hab hbc

theorem sameRow_cons (k k' : Key) (row row' : List Key) :
    sameRow (k :: row) (k' :: row') = (k.same k' && sameRow row row') := rfl

namespace Trie

variable {β : Type} {fresh : β} {update : β → β}

/-! ## Tries with tables in order -/

/-- The tables of a trie are sorted, and its values are good. -/
def Ordered (Good : β → Prop) (t : Trie β) : Prop :=
  ∀ path s, At t path s → s.literals.Sorted ∧ Good s.leaf

section

variable {Good : β → Prop}

theorem Ordered.sorted {t : Trie β} (h : t.Ordered Good) : t.Sorted := fun path s hs => (h path s hs).1

theorem ordered_single {leaf : β} (h : Good leaf) : (single leaf).Ordered Good := by
  intro path s hs
  obtain ⟨rfl, rfl⟩ := at_single hs
  exact ⟨TextIndex.sorted_empty, h⟩

theorem Ordered.insert {t : Trie β} (h : t.Ordered Good) (hfresh : Good fresh)
    (hupdate : ∀ b, Good b → Good (update b)) (row : List Key) :
    (t.insert fresh update row).Ordered Good := by
  intro path s hs
  obtain ⟨-, hs⟩ | ⟨start, rest, old, hway⟩ := at_insert h.sorted hs
  · exact h path s hs
  · have hold : old.literals.Sorted ∧ Good old.leaf := by
      obtain hold | hold := hway.before
      · exact h path old hold
      · exact hold ▸ ⟨TextIndex.sorted_empty, hfresh⟩
    rw [hway.inserted, leaf_insert]
    refine ⟨sorted_insert hold.1, ?_⟩
    split
    · exact hupdate _ hold.2
    · exact hold.2

theorem Ordered.literal {leaf : β} {literals : TextIndex (Trie β)}
    {patterns : List (SegmentPattern × Trie β)} (h : (node leaf literals patterns).Ordered Good)
    {text : String} {child : Trie β} (hfind : literals.find? text = some child) :
    child.Ordered Good := by
  have hsorted : literals.Sorted := (h [] _ (.root _)).1
  exact fun path s hs => h _ s (.literal (hsorted.mem_entries_iff.mpr hfind) hs)

theorem Ordered.pattern {leaf : β} {literals : TextIndex (Trie β)}
    {patterns : List (SegmentPattern × Trie β)} (h : (node leaf literals patterns).Ordered Good)
    {child : SegmentPattern × Trie β} (hchild : child ∈ patterns) : child.2.Ordered Good :=
  fun _ s hs => h _ s (.pattern hchild hs)

/-- What a lookup finds is good, and so is what stands for nothing. -/
theorem Ordered.getD_find? {t : Trie β} (h : t.Ordered Good) (hfresh : Good fresh) (row : List Key) :
    Good ((find? row t).getD fresh) := by
  induction row generalizing t with
  | nil =>
    obtain ⟨leaf, literals, patterns⟩ := t
    exact (h [] _ (.root _)).2
  | cons k row ih =>
    obtain ⟨leaf, literals, patterns⟩ := t
    cases k with
    | literal text =>
      rw [find?]
      cases hfind : literals.find? text with
      | none => exact hfresh
      | some child => exact ih (h.literal hfind)
    | pattern p =>
      rw [find?]
      cases hfind : patterns.find? fun child => child.1.same p with
      | none => exact hfresh
      | some child => exact ih (h.pattern (List.mem_of_find?_eq_some hfind))

end

/-! ## Lookups -/

theorem getD_find?_single (row : List Key) : (find? row (single fresh)).getD fresh = fresh := by
  cases row with
  | nil => rfl
  | cons k row =>
    cases k with
    | literal text => rw [single, find?, TextIndex.find?_empty, Option.bind_none, Option.getD_none]
    | pattern p => rfl

/-- The child that a lookup comes to behind a pattern. -/
def childAt (p : SegmentPattern) (patterns : List (SegmentPattern × Trie β)) : Option (Trie β) :=
  (patterns.find? fun child => child.1.same p).map Prod.snd

theorem childAt_cons (p q : SegmentPattern) (t : Trie β) (rest : List (SegmentPattern × Trie β)) :
    childAt p ((q, t) :: rest) = if q.same p then some t else childAt p rest := by
  rw [childAt, List.find?_cons]
  cases q.same p <;> rfl

/-- Patterns that are the same lead to one child, and it alone is altered. -/
theorem childAt_alterPattern (p q : SegmentPattern) (f : Option (Trie β) → Trie β)
    (patterns : List (SegmentPattern × Trie β)) :
    childAt q (alterPattern p f patterns)
      = if p.same q then some (f (childAt q patterns)) else childAt q patterns := by
  induction patterns with
  | nil => rw [alterPattern, childAt_cons]; rfl
  | cons child rest ih =>
    obtain ⟨r, t⟩ := child
    rw [alterPattern]
    by_cases hrp : r.same p = true
    · have hrq : r.same q = p.same q := by
        rw [Bool.eq_iff_iff]
        have hpr : p.same r = true := (p.same_comm r).trans hrp
        exact ⟨SegmentPattern.same_trans hpr, SegmentPattern.same_trans hrp⟩
      rw [if_pos hrp, childAt_cons, childAt_cons, hrq]
      split <;> rfl
    · rw [if_neg hrp, childAt_cons, childAt_cons, ih]
      by_cases hrq : r.same q = true
      · have hpq : ¬ p.same q = true := fun hpq =>
          hrp (SegmentPattern.same_trans hrq ((q.same_comm p).trans hpq))
        simp only [if_pos hrq, if_neg hpq]
      · simp only [if_neg hrq]

theorem getD_find?_literal (leaf : β) (literals : TextIndex (Trie β))
    (patterns : List (SegmentPattern × Trie β)) (text : String) (row : List Key) :
    (find? (.literal text :: row) (node leaf literals patterns)).getD fresh
      = (find? row ((literals.find? text).getD (single fresh))).getD fresh := by
  rw [find?]
  cases literals.find? text with
  | none => exact (getD_find?_single row).symm
  | some child => rfl

theorem getD_find?_pattern (leaf : β) (literals : TextIndex (Trie β))
    (patterns : List (SegmentPattern × Trie β)) (p : SegmentPattern) (row : List Key) :
    (find? (.pattern p :: row) (node leaf literals patterns)).getD fresh
      = (find? row ((childAt p patterns).getD (single fresh))).getD fresh := by
  rw [find?, childAt]
  cases patterns.find? fun child => child.1.same p with
  | none => exact (getD_find?_single row).symm
  | some child => rfl

/-- An insertion updates what is found along the rows that are the same as the inserted one. -/
theorem getD_find?_insert {Good : β → Prop} {t : Trie β} (h : t.Ordered Good) (hfresh : Good fresh)
    (row path : List Key) : (find? path (t.insert fresh update row)).getD fresh
      = if sameRow row path then update ((find? path t).getD fresh) else (find? path t).getD fresh := by
  induction row generalizing t path with
  | nil =>
    obtain ⟨leaf, literals, patterns⟩ := t
    cases path with
    | nil => rfl
    | cons k path => cases k <;> rfl
  | cons k row ih =>
    obtain ⟨leaf, literals, patterns⟩ := t
    cases k with
    | literal text =>
      cases path with
      | nil => rfl
      | cons k' path =>
        cases k' with
        | pattern q => rfl
        | literal text' =>
          have hsorted : literals.Sorted := (h [] _ (.root _)).1
          rw [Trie.insert, getD_find?_literal, getD_find?_literal, TextIndex.find?_alter hsorted,
            sameRow_cons]
          by_cases heq : text' = text
          · subst heq
            have hchild : ((literals.find? text').getD (single fresh)).Ordered Good := by
              cases hfind : literals.find? text' with
              | none => exact ordered_single hfresh
              | some child => exact h.literal hfind
            simpa [Key.same] using ih hchild path
          · simp [heq, Ne.symm heq, Key.same]
    | pattern p =>
      cases path with
      | nil => rfl
      | cons k' path =>
        cases k' with
        | literal text => rfl
        | pattern q =>
          rw [Trie.insert, getD_find?_pattern, getD_find?_pattern, childAt_alterPattern, sameRow_cons,
            show (Key.pattern p).same (.pattern q) = p.same q from rfl]
          by_cases heq : p.same q = true
          · have hchild : ((childAt q patterns).getD (single fresh)).Ordered Good := by
              rw [childAt]
              cases hfind : patterns.find? fun child => child.1.same q with
              | none => exact ordered_single hfresh
              | some child => exact h.pattern (List.mem_of_find?_eq_some hfind)
            simpa [heq] using ih hchild path
          · simp [heq]

end Trie

end UriRouting

import Mathlib.Data.List.Induction
import UriRouting.Proofs.TextIndex
import UriRouting.Trie.Basic
/-!
Tries and the edits that built them.

Each edit updates the value at the end of a row of keys. What is at a node depends only on the edits
whose rows pass through it: `below k edits` are the edits that go on behind the key `k`, and
`build_spec` describes the root of a trie by them. Its children are again tries built by edits, so the
description goes all the way down.

Keys that are the same share a node. That is well behaved where no key is the same as another one,
and each is the same as itself; `Sharp` says so of a set of keys.
-/

namespace UriRouting

variable {β : Type}

structure Edit (β : Type) where
  row : List Key
  update : β → β

/-- Among the keys of `S`, only equal ones are the same. -/
def Sharp (S : Key → Prop) : Prop := ∀ k, S k → ∀ k', S k' → (k.same k' = true ↔ k = k')

/-- The keys of all edits are in `S`. -/
def Over (S : Key → Prop) (edits : List (Edit β)) : Prop := ∀ e ∈ edits, ∀ k ∈ e.row, S k

theorem Over.left {S : Key → Prop} {edits more : List (Edit β)} (h : Over S (edits ++ more)) :
    Over S edits := fun e he => h e (List.mem_append_left more he)

theorem Over.head {S : Key → Prop} {edits : List (Edit β)} (h : Over S edits) {e : Edit β}
    (he : e ∈ edits) {k : Key} {row : List Key} (hrow : e.row = k :: row) : S k := by
  refine h e he k ?_
  rw [hrow]
  exact List.mem_cons_self

/-! ## Rows behind a key -/

/-- What is left of a row behind a key, if the row begins with it. -/
def stripKey (k : Key) : List Key → Option (List Key)
  | k' :: row => if k'.same k then some row else none
  | [] => none

theorem stripKey_literal {text : String} {row rest : List Key} :
    stripKey (.literal text) row = some rest ↔ row = .literal text :: rest := by
  cases row with
  | nil => simp [stripKey]
  | cons k row =>
    cases k with
    | literal text' => simp [stripKey, Key.same]
    | pattern p => simp [stripKey, Key.same]

theorem stripKey_eq_some {S : Key → Prop} (hS : Sharp S) {k : Key} (hk : S k) {row rest : List Key}
    (hrow : ∀ k' ∈ row, S k') : stripKey k row = some rest ↔ row = k :: rest := by
  cases row with
  | nil => simp [stripKey]
  | cons k' row =>
    rw [stripKey, List.cons.injEq]
    by_cases h : k'.same k = true
    · have hkk := (hS k' (hrow k' List.mem_cons_self) k hk).mp h
      rw [if_pos h, Option.some.injEq]
      exact ⟨fun e => ⟨hkk, e⟩, fun e => e.2⟩
    · rw [if_neg h]
      refine ⟨nofun, fun e => ?_⟩
      exact absurd ((hS k' (hrow k' List.mem_cons_self) k hk).mpr e.1) h

/-- The edits that go on behind a key. -/
def below (k : Key) (edits : List (Edit β)) : List (Edit β) :=
  edits.filterMap fun e => (stripKey k e.row).map fun row => ⟨row, e.update⟩

theorem below_nil (k : Key) : below k ([] : List (Edit β)) = [] := rfl

theorem below_concat (k : Key) (edits : List (Edit β)) (e : Edit β) :
    below k (edits ++ [e])
      = below k edits ++ ((stripKey k e.row).map fun row => ⟨row, e.update⟩).toList := by
  unfold below
  rw [List.filterMap_append, List.filterMap_cons, List.filterMap_nil]
  cases stripKey k e.row <;> rfl

theorem below_concat_of_none {k : Key} {e : Edit β} (h : stripKey k e.row = none)
    (edits : List (Edit β)) : below k (edits ++ [e]) = below k edits := by
  rw [below_concat, h]
  exact List.append_nil _

theorem below_concat_of_some {k : Key} {e : Edit β} {row : List Key}
    (h : stripKey k e.row = some row) (edits : List (Edit β)) :
    below k (edits ++ [e]) = below k edits ++ [⟨row, e.update⟩] := by
  rw [below_concat, h]
  rfl

theorem mem_below {S : Key → Prop} (hS : Sharp S) {k : Key} (hk : S k) {edits : List (Edit β)}
    (hE : Over S edits) {e : Edit β} :
    e ∈ below k edits ↔ ⟨k :: e.row, e.update⟩ ∈ edits := by
  unfold below
  rw [List.mem_filterMap]
  constructor
  · intro h
    obtain ⟨e', he', h⟩ := h
    obtain ⟨row, hrow, rfl⟩ := Option.map_eq_some_iff.mp h
    have := (stripKey_eq_some hS hk (hE e' he')).mp hrow
    rw [← this]
    exact he'
  · intro he
    refine ⟨_, he, ?_⟩
    rw [(stripKey_eq_some hS hk (hE _ he)).mpr rfl]
    rfl

theorem Over.below {S : Key → Prop} {edits : List (Edit β)} (h : Over S edits) (k : Key) :
    Over S (below k edits) := by
  intro e he k' hk'
  obtain ⟨e', he', h'⟩ := List.mem_filterMap.mp he
  obtain ⟨row, hrow, rfl⟩ := Option.map_eq_some_iff.mp h'
  refine h e' he' k' ?_
  cases hr : e'.row with
  | nil => rw [hr] at hrow; cases hrow
  | cons k₀ rest =>
    rw [hr, stripKey] at hrow
    split at hrow
    · rw [Option.some.injEq] at hrow
      rw [hrow]
      exact List.mem_cons_of_mem k₀ hk'
    · cases hrow

/-! ## First patterns -/

/-- Puts the pattern that a row begins with last, unless it is there. -/
def addFirst (ps : List SegmentPattern) : List Key → List SegmentPattern
  | .pattern p :: _ => if ps.any (·.same p) then ps else ps ++ [p]
  | _ => ps

/-- The patterns that rows begin with, in the order in which they first occur. -/
def firstPatterns (edits : List (Edit β)) : List SegmentPattern :=
  edits.foldl (fun ps e => addFirst ps e.row) []

theorem firstPatterns_concat (edits : List (Edit β)) (e : Edit β) :
    firstPatterns (edits ++ [e]) = addFirst (firstPatterns edits) e.row := by
  unfold firstPatterns
  rw [List.foldl_append]
  rfl

section

variable {S : Key → Prop}

theorem addFirst_of_mem {ps : List SegmentPattern} (hS : Sharp S) {p : SegmentPattern}
    (hp : S (.pattern p)) (hmem : p ∈ ps) (row : List Key) : addFirst ps (.pattern p :: row) = ps := by
  have hself : p.same p = true := (hS _ hp _ hp).mpr rfl
  have hany : ps.any (·.same p) = true := List.any_eq_true.mpr ⟨p, hmem, hself⟩
  exact if_pos hany

theorem addFirst_of_not_mem {ps : List SegmentPattern} (hS : Sharp S)
    (hps : ∀ q ∈ ps, S (.pattern q)) {p : SegmentPattern} (hp : S (.pattern p)) (hmem : p ∉ ps)
    (row : List Key) : addFirst ps (.pattern p :: row) = ps ++ [p] := by
  refine if_neg fun h => hmem ?_
  obtain ⟨q, hq, hqp⟩ := List.any_eq_true.mp h
  have hkey : Key.pattern q = .pattern p := (hS _ (hps q hq) _ hp).mp hqp
  cases hkey
  exact hq

/-- The first patterns are those that some row begins with, each once. -/
theorem firstPatterns_spec (hS : Sharp S) {edits : List (Edit β)} (hE : Over S edits) :
    (firstPatterns edits).Nodup ∧
      ∀ p, p ∈ firstPatterns edits ↔ ∃ e ∈ edits, ∃ row, e.row = .pattern p :: row := by
  induction edits using List.reverseRecOn with
  | nil => exact ⟨List.nodup_nil, fun p => by simp [firstPatterns]⟩
  | append_singleton edits e ih =>
    obtain ⟨hnodup, hmem⟩ := ih hE.left
    have hin : ∀ q ∈ firstPatterns edits, S (.pattern q) := by
      intro q hq
      obtain ⟨e', he', row, hrow⟩ := (hmem q).mp hq
      exact hE.left.head he' hrow
    have hsplit : ∀ p, (∃ e' ∈ edits ++ [e], ∃ row, e'.row = .pattern p :: row)
        ↔ p ∈ firstPatterns edits ∨ ∃ row, e.row = .pattern p :: row := by
      intro p
      simp only [List.mem_append, List.mem_singleton, or_and_right, exists_or, exists_eq_left, hmem]
    simp only [hsplit, firstPatterns_concat]
    cases hrow : e.row with
    | nil => exact ⟨hnodup, fun p => by simp [addFirst]⟩
    | cons k row =>
      cases k with
      | literal text => exact ⟨hnodup, fun p => by simp [addFirst]⟩
      | pattern q =>
        have hq : S (.pattern q) := hE.head (List.mem_append_right edits List.mem_cons_self) hrow
        by_cases hold : q ∈ firstPatterns edits
        · rw [addFirst_of_mem hS hq hold]
          refine ⟨hnodup, fun p => ⟨Or.inl, ?_⟩⟩
          intro h
          rcases h with hp | ⟨_, hp⟩
          · exact hp
          · cases hp; exact hold
        · rw [addFirst_of_not_mem hS hin hq hold]
          refine ⟨List.nodup_append.mpr ⟨hnodup, List.pairwise_singleton _ q, ?_⟩, fun p => ?_⟩
          · intro p hp p' hp' heq
            subst heq
            rw [List.mem_singleton] at hp'
            exact hold (hp' ▸ hp)
          · rw [List.mem_append, List.mem_singleton]
            refine or_congr_right ⟨fun h => ⟨row, by rw [h]⟩, ?_⟩
            intro h
            obtain ⟨_, h⟩ := h
            cases h
            rfl

theorem firstPatterns_mem (hS : Sharp S) {edits : List (Edit β)} (hE : Over S edits) :
    ∀ p ∈ firstPatterns edits, S (.pattern p) := by
  intro p hp
  obtain ⟨e, he, row, hrow⟩ := ((firstPatterns_spec hS hE).2 p).mp hp
  exact hE.head he hrow

/-! ## Building -/

def rootValue (fresh : β) (edits : List (Edit β)) : β :=
  edits.foldl (fun b e => if e.row.isEmpty then e.update b else b) fresh

theorem rootValue_concat (fresh : β) (edits : List (Edit β)) (e : Edit β) :
    rootValue fresh (edits ++ [e])
      = if e.row.isEmpty then e.update (rootValue fresh edits) else rootValue fresh edits := by
  unfold rootValue
  rw [List.foldl_append]
  rfl

def Trie.build (fresh : β) (edits : List (Edit β)) : Trie β :=
  edits.foldl (fun t e => t.insert fresh e.update e.row) (.single fresh)

theorem build_concat (fresh : β) (edits : List (Edit β)) (e : Edit β) :
    Trie.build fresh (edits ++ [e]) = (Trie.build fresh edits).insert fresh e.update e.row := by
  unfold Trie.build
  rw [List.foldl_append]
  rfl

theorem alterPattern_of_mem {ps : List SegmentPattern} {p : SegmentPattern}
    {f : Option (Trie β) → Trie β} {g g' : SegmentPattern → Trie β}
    (hsame : ∀ q ∈ ps, q.same p = true ↔ q = p) (hp : p ∈ ps) (hnodup : ps.Nodup)
    (hhere : g' p = f (some (g p))) (hother : ∀ q ∈ ps, q ≠ p → g' q = g q) :
    Trie.alterPattern p f (ps.map fun q => (q, g q)) = ps.map fun q => (q, g' q) := by
  induction ps with
  | nil => cases hp
  | cons q ps ih =>
    obtain ⟨hq, hps⟩ := List.nodup_cons.mp hnodup
    rw [List.map_cons, List.map_cons, Trie.alterPattern]
    by_cases h : q = p
    · subst h
      have hrest : (ps.map fun r => (r, g r)) = ps.map fun r => (r, g' r) := by
        refine List.map_congr_left fun r hr => ?_
        rw [hother r (List.mem_cons_of_mem q hr) fun e => hq (e ▸ hr)]
      rw [if_pos ((hsame q List.mem_cons_self).mpr rfl), hhere, hrest]
    · have hmem : p ∈ ps := by
        rcases List.mem_cons.mp hp with e | hmem
        · exact absurd e.symm h
        · exact hmem
      rw [if_neg fun e => h ((hsame q List.mem_cons_self).mp e), hother q List.mem_cons_self h,
        ih (fun r hr => hsame r (List.mem_cons_of_mem q hr)) hmem hps
          fun r hr => hother r (List.mem_cons_of_mem q hr)]

theorem alterPattern_of_not_mem {ps : List SegmentPattern} {p : SegmentPattern}
    {f : Option (Trie β) → Trie β} {g : SegmentPattern → Trie β}
    (hsame : ∀ q ∈ ps, q.same p = true ↔ q = p) (hp : p ∉ ps) :
    Trie.alterPattern p f (ps.map fun q => (q, g q))
      = (ps.map fun q => (q, g q)) ++ [(p, f none)] := by
  induction ps with
  | nil => rfl
  | cons q ps ih =>
    have hne : ¬ q.same p = true := fun e =>
      hp (((hsame q List.mem_cons_self).mp e) ▸ List.mem_cons_self)
    rw [List.map_cons, Trie.alterPattern, if_neg hne,
      ih (fun r hr => hsame r (List.mem_cons_of_mem q hr)) fun h => hp (List.mem_cons_of_mem q h)]
    rfl

/-- What a node's description says of its literal children. -/
def LiteralsBuilt (fresh : β) (edits : List (Edit β)) (literals : TextIndex (Trie β)) : Prop :=
  literals.Sorted ∧ ∀ text, literals.find? text = if below (.literal text) edits = [] then none
    else some (Trie.build fresh (below (.literal text) edits))

theorem LiteralsBuilt.getD_find? {fresh : β} {edits : List (Edit β)} {literals : TextIndex (Trie β)}
    (h : LiteralsBuilt fresh edits literals) (text : String) :
    (literals.find? text).getD (.single fresh) = Trie.build fresh (below (.literal text) edits) := by
  rw [h.2 text]
  split
  · next hnone => rw [hnone]; rfl
  · rfl

theorem LiteralsBuilt.concat {fresh : β} {edits : List (Edit β)} {literals : TextIndex (Trie β)}
    (h : LiteralsBuilt fresh edits literals) {e : Edit β} {text : String} {row : List Key}
    (he : e.row = .literal text :: row) :
    LiteralsBuilt fresh (edits ++ [e])
      (literals.alter text (.single fresh) (Trie.insert fresh e.update row)) := by
  refine ⟨h.1.alter _ _ _, fun text' => ?_⟩
  rw [TextIndex.find?_alter h.1, h.getD_find?]
  by_cases ht : text' = text
  · subst ht
    have hsome : stripKey (.literal text') e.row = some row := stripKey_literal.mpr he
    rw [if_pos rfl, below_concat_of_some hsome, build_concat, if_neg (by simp)]
  · have hnone : stripKey (.literal text') e.row = none := by
      rw [he, stripKey, if_neg (by simpa [Key.same] using Ne.symm ht)]
    rw [if_neg ht, below_concat_of_none hnone, h.2]

theorem LiteralsBuilt.concat_of_ne {fresh : β} {edits : List (Edit β)}
    {literals : TextIndex (Trie β)} (h : LiteralsBuilt fresh edits literals) {e : Edit β}
    (he : ∀ text, stripKey (.literal text) e.row = none) :
    LiteralsBuilt fresh (edits ++ [e]) literals := by
  refine ⟨h.1, fun text => ?_⟩
  rw [below_concat_of_none (he text), h.2]

theorem patterns_concat (fresh : β) (hS : Sharp S) {edits : List (Edit β)} (hE : Over S edits)
    {e : Edit β} {p : SegmentPattern} {row : List Key} (he : e.row = .pattern p :: row)
    (hp : S (.pattern p)) :
    Trie.alterPattern p (fun t? => Trie.insert fresh e.update row (t?.getD (.single fresh)))
        ((firstPatterns edits).map fun q => (q, Trie.build fresh (below (.pattern q) edits)))
      = (firstPatterns (edits ++ [e])).map fun q =>
          (q, Trie.build fresh (below (.pattern q) (edits ++ [e]))) := by
  obtain ⟨hnodup, hmem⟩ := firstPatterns_spec hS hE
  have hin := firstPatterns_mem hS hE
  have hsame : ∀ q ∈ firstPatterns edits, q.same p = true ↔ q = p := by
    intro q hq
    rw [← Key.pattern.injEq q p]
    exact hS _ (hin q hq) _ hp
  have hhere : below (.pattern p) (edits ++ [e]) = below (.pattern p) edits ++ [⟨row, e.update⟩] := by
    refine below_concat_of_some ?_ edits
    rw [he, stripKey, if_pos ((hS _ hp _ hp).mpr rfl)]
  have hother : ∀ q ∈ firstPatterns edits, q ≠ p →
      below (.pattern q) (edits ++ [e]) = below (.pattern q) edits := by
    intro q hq hne
    refine below_concat_of_none ?_ edits
    rw [he, stripKey, if_neg]
    intro h
    have := (hS _ hp _ (hin q hq)).mp h
    exact hne (Key.pattern.inj this).symm
  rw [firstPatterns_concat, he]
  by_cases hold : p ∈ firstPatterns edits
  · rw [addFirst_of_mem hS hp hold]
    refine alterPattern_of_mem hsame hold hnodup ?_ fun q hq hne => ?_
    · rw [hhere, build_concat]
      rfl
    · rw [hother q hq hne]
  · have hempty : below (.pattern p) edits = [] := by
      refine List.eq_nil_iff_forall_not_mem.mpr fun e' he' => hold ?_
      exact (hmem p).mpr ⟨_, (mem_below hS hp hE).mp he', e'.row, rfl⟩
    have hrest : (firstPatterns edits).map (fun q => (q, Trie.build fresh (below (.pattern q) edits)))
        = (firstPatterns edits).map fun q =>
            (q, Trie.build fresh (below (.pattern q) (edits ++ [e]))) := by
      refine List.map_congr_left fun q hq => ?_
      rw [hother q hq fun h => hold (h ▸ hq)]
    rw [addFirst_of_not_mem hS hin hp hold, alterPattern_of_not_mem hsame hold, List.map_append,
      hrest, List.map_singleton, hhere, hempty, build_concat]
    rfl

/-- What a trie is at its root: the value that the edits of the empty row leave, a child for every
literal that some row begins with, and a child for every pattern in the order of first occurrence. -/
theorem build_spec (fresh : β) (hS : Sharp S) {edits : List (Edit β)} (hE : Over S edits) :
    ∃ literals : TextIndex (Trie β), LiteralsBuilt fresh edits literals ∧
      Trie.build fresh edits = .node (rootValue fresh edits) literals
        ((firstPatterns edits).map fun p => (p, Trie.build fresh (below (.pattern p) edits))) := by
  induction edits using List.reverseRecOn with
  | nil => exact ⟨.empty, ⟨TextIndex.sorted_empty, fun text => by simp [below_nil]⟩, rfl⟩
  | append_singleton edits e ih =>
    obtain ⟨literals, hliterals, hnode⟩ := ih hE.left
    rw [build_concat, hnode, rootValue_concat]
    cases hrow : e.row with
    | nil =>
      have hnone : ∀ k, stripKey k e.row = none := fun k => by rw [hrow, stripKey]
      refine ⟨literals, hliterals.concat_of_ne fun text => hnone _, ?_⟩
      rw [Trie.insert, firstPatterns_concat, hrow]
      simp only [below_concat_of_none (hnone _), addFirst, List.isEmpty_nil, if_true]
    | cons k row =>
      cases k with
      | literal text =>
        have hnone : ∀ p, stripKey (.pattern p) e.row = none := by
          intro p
          rw [hrow]
          rfl
        refine ⟨_, hliterals.concat hrow, ?_⟩
        rw [Trie.insert, firstPatterns_concat, hrow]
        simp only [below_concat_of_none (hnone _), addFirst, List.isEmpty_cons, Bool.false_eq_true,
          if_false]
      | pattern p =>
        have hnone : ∀ text, stripKey (.literal text) e.row = none := by
          intro text
          rw [hrow]
          rfl
        have hp : S (.pattern p) := hE.head (List.mem_append_right edits List.mem_cons_self) hrow
        refine ⟨literals, hliterals.concat_of_ne hnone, ?_⟩
        rw [Trie.insert, patterns_concat fresh hS hE.left hrow hp]
        simp only [List.isEmpty_cons, Bool.false_eq_true, if_false]

end

end UriRouting

import Mathlib.Data.List.Forall2
import UriRouting.Proofs.Trie.Keys
/-!
The nodes of a trie, and what an insertion does to them.

`At` leads from a trie to a node along the keys of a row. An insertion leaves a node as it was, or the
node lies on the way of the inserted row: `at_insert` says which, and every invariant of tries follows
from it. Keys are compared by `Key.same` alone, of which nothing is assumed.
-/

namespace UriRouting

variable {β : Type}

namespace Trie

/-! ## Nodes -/

def literals : Trie β → TextIndex (Trie β)
  | node _ literals _ => literals

def patterns : Trie β → List (SegmentPattern × Trie β)
  | node _ _ patterns => patterns

def Childless (t : Trie β) : Prop := t.literals.entries = [] ∧ t.patterns = []

/-- Following a row of keys from the root of a trie leads to the node `s`. -/
inductive At : Trie β → List Key → Trie β → Prop
  | root (t : Trie β) : At t [] t
  | literal {t child s : Trie β} {text : String} {row : List Key}
    (edge : (text, child) ∈ t.literals.entries) (rest : At child row s) :
    At t (.literal text :: row) s
  | pattern {t child s : Trie β} {p : SegmentPattern} {row : List Key}
    (edge : (p, child) ∈ t.patterns) (rest : At child row s) : At t (.pattern p :: row) s

/-- Nothing hangs below a node without children. -/
theorem at_single {leaf : β} {row : List Key} {s : Trie β} (h : At (single leaf) row s) :
    row = [] ∧ s = single leaf := by
  cases h with
  | root => exact ⟨rfl, rfl⟩
  | literal edge rest => cases edge
  | pattern edge rest => cases edge

/-! ## Tries with indexes in order -/

/-- The literal children of every node are in order. -/
def Sorted (t : Trie β) : Prop := ∀ path s, At t path s → s.literals.Sorted

theorem sorted_single (leaf : β) : (single leaf).Sorted := by
  intro path s hs
  obtain ⟨-, rfl⟩ := at_single hs
  exact TextIndex.sorted_empty

theorem Sorted.literals {t : Trie β} (h : t.Sorted) : t.literals.Sorted := h [] t (.root t)

theorem Sorted.literal {t child : Trie β} {text : String} (h : t.Sorted)
    (edge : (text, child) ∈ t.literals.entries) : child.Sorted :=
  fun _ s hs => h _ s (.literal edge hs)

theorem Sorted.pattern {t child : Trie β} {p : SegmentPattern} (h : t.Sorted) (edge : (p, child) ∈ t.patterns) :
    child.Sorted :=
  fun _ s hs => h _ s (.pattern edge hs)

theorem Sorted.find? {t child : Trie β} {text : String} (h : t.Sorted) (hchild : t.literals.find? text = some child) :
    (text, child) ∈ t.literals.entries :=
  h.literals.mem_entries_iff.mpr hchild

/-! ## Children after an insertion -/

theorem mem_alterPattern {p : SegmentPattern} {f : Option (Trie β) → Trie β}
    {l : List (SegmentPattern × Trie β)} {e : SegmentPattern × Trie β}
    (he : e ∈ alterPattern p f l) :
    e ∈ l ∨ e = (p, f none) ∨ ∃ q old, (q, old) ∈ l ∧ q.same p = true ∧ e = (q, f (some old)) := by
  induction l with
  | nil => exact Or.inr (Or.inl (List.mem_singleton.mp he))
  | cons head rest ih =>
    obtain ⟨q, t⟩ := head
    rw [alterPattern] at he
    split at he
    · next hsame =>
      rcases List.mem_cons.mp he with he | he
      · exact Or.inr (Or.inr ⟨q, t, List.mem_cons_self, hsame, he⟩)
      · exact Or.inl (List.mem_cons_of_mem _ he)
    · rcases List.mem_cons.mp he with he | he
      · exact Or.inl (he ▸ List.mem_cons_self)
      · rcases ih he with he | he | ⟨q', old, hold, hsame, he⟩
        · exact Or.inl (List.mem_cons_of_mem _ he)
        · exact Or.inr (Or.inl he)
        · exact Or.inr (Or.inr ⟨q', old, List.mem_cons_of_mem _ hold, hsame, he⟩)

theorem alterPattern_self_mem (p : SegmentPattern) (f : Option (Trie β) → Trie β)
    (l : List (SegmentPattern × Trie β)) :
    (∃ q old, (q, old) ∈ l ∧ q.same p = true ∧ (q, f (some old)) ∈ alterPattern p f l) ∨
      (p, f none) ∈ alterPattern p f l := by
  induction l with
  | nil => exact Or.inr List.mem_cons_self
  | cons head rest ih =>
    obtain ⟨q, t⟩ := head
    rw [alterPattern]
    split
    · next h => exact Or.inl ⟨q, t, List.mem_cons_self, h, List.mem_cons_self⟩
    · refine ih.imp (fun h => ?_) (List.mem_cons_of_mem _)
      obtain ⟨q', old, hold, hsame, h⟩ := h
      exact ⟨q', old, List.mem_cons_of_mem _ hold, hsame, List.mem_cons_of_mem _ h⟩

theorem mem_alterPattern_of_mem {p : SegmentPattern} {f : Option (Trie β) → Trie β}
    {l : List (SegmentPattern × Trie β)} {e : SegmentPattern × Trie β} (he : e ∈ l) :
    e ∈ alterPattern p f l ∨ (e.1, f (some e.2)) ∈ alterPattern p f l := by
  induction l with
  | nil => cases he
  | cons head rest ih =>
    obtain ⟨q, t⟩ := head
    rw [alterPattern]
    split
    · rcases List.mem_cons.mp he with rfl | he
      · exact Or.inr List.mem_cons_self
      · exact Or.inl (List.mem_cons_of_mem _ he)
    · rcases List.mem_cons.mp he with rfl | he
      · exact Or.inl List.mem_cons_self
      · exact (ih he).imp (List.mem_cons_of_mem _) (List.mem_cons_of_mem _)

theorem alterPattern_keys (p : SegmentPattern) (f : Option (Trie β) → Trie β)
    (l : List (SegmentPattern × Trie β)) :
    (alterPattern p f l).map Prod.fst = l.map Prod.fst ∨
      (∀ e ∈ l, e.1.same p = false) ∧
        (alterPattern p f l).map Prod.fst = l.map Prod.fst ++ [p] := by
  induction l with
  | nil => exact Or.inr ⟨fun e he => (List.not_mem_nil he).elim, rfl⟩
  | cons head rest ih =>
    obtain ⟨q, t⟩ := head
    rw [alterPattern]
    split
    · exact Or.inl rfl
    · next hne =>
      rcases ih with ih | ⟨hnone, ih⟩
      · exact Or.inl (by rw [List.map_cons, ih, List.map_cons])
      · refine Or.inr ⟨fun e he => ?_, by rw [List.map_cons, ih]; rfl⟩
        rcases List.mem_cons.mp he with rfl | he
        · simpa using hne
        · exact hnone e he

/-! ## Nodes after an insertion -/

variable {fresh : β} {update : β → β}

/-- What is below the literal that a row begins with is inserted into, or made new. The other literals are left alone. -/
theorem mem_literals_insert {t : Trie β} (ht : t.literals.Sorted) {text text' : String} {row : List Key}
    {child : Trie β} : (text', child) ∈ (insert fresh update (.literal text :: row) t).literals.entries ↔
      if text' = text then insert fresh update row ((t.literals.find? text).getD (single fresh)) = child
      else (text', child) ∈ t.literals.entries := by
  obtain ⟨leaf, literals, patterns⟩ := t
  rw [insert]
  exact TextIndex.Sorted.mem_entries_alter ht

theorem mem_literals_insert_self (fresh : β) (update : β → β) {t : Trie β} (ht : t.literals.Sorted) (text : String)
    (row : List Key) : (text, insert fresh update row ((t.literals.find? text).getD (single fresh))) ∈
      (insert fresh update (.literal text :: row) t).literals.entries := by
  rw [mem_literals_insert ht, if_pos rfl]

/-- A key of the inserted row and the key that is followed in its place: the key itself, or one of the
trie that is the same. -/
def InPlaceOf (t : Trie β) (k' k : Key) : Prop :=
  k' = k ∨ k'.same k = true ∧ ∃ path s, At t path s ∧ k' ∈ path

theorem InPlaceOf.behind {t child : Trie β} {k' l' l : Key}
    (hlift : ∀ path s, At child path s → At t (k' :: path) s) (h : InPlaceOf child l' l) :
    InPlaceOf t l' l := by
  refine h.imp_right fun h => ?_
  obtain ⟨hsame, path, s, hs, hl⟩ := h
  exact ⟨hsame, k' :: path, s, hlift path s hs, List.mem_cons_of_mem k' hl⟩

theorem InPlaceOf.eq_of_single {l' l : Key} (h : InPlaceOf (single fresh) l' l) : l' = l := by
  rcases h with h | ⟨-, path, s, hs, hl⟩
  · exact h
  · rw [(at_single hs).1] at hl
    cases hl

/-- A key that is followed in the place of another one is that key or was there before. -/
theorem keys_of_places {t : Trie β} {path start : List Key} (h : List.Forall₂ (InPlaceOf t) path start) :
    ∀ k ∈ path, k ∈ start ∨ ∃ path' s', At t path' s' ∧ k ∈ path' := by
  induction h with
  | nil => exact fun _ hk => (List.not_mem_nil hk).elim
  | cons hplace _ ih =>
    intro k hk
    rcases List.mem_cons.mp hk with rfl | hk
    · rcases hplace with rfl | ⟨-, hbefore⟩
      · exact Or.inl List.mem_cons_self
      · exact Or.inr hbefore
    · exact (ih k hk).imp_left (List.mem_cons_of_mem _)

/-- A node that lies on the way of an inserted row: what is left of the row was inserted into a node
that was there before, or into a new one. -/
structure OnWay (fresh : β) (update : β → β) (row : List Key) (t : Trie β) (path : List Key)
    (s : Trie β) (start rest : List Key) (old : Trie β) : Prop where
  split : row = start ++ rest
  places : List.Forall₂ (InPlaceOf t) path start
  before : At t path old ∨ old = single fresh
  inserted : s = insert fresh update rest old

theorem OnWay.root (fresh : β) (update : β → β) (row : List Key) (t : Trie β) :
    OnWay fresh update row t [] (insert fresh update row t) [] row t :=
  ⟨rfl, .nil, Or.inl (.root t), rfl⟩

/-- Behind a key that was there already. -/
theorem OnWay.behind {k k' : Key} {row path start rest : List Key} {t child s old : Trie β}
    (hsame : k' = k ∨ k'.same k = true) (hlift : ∀ path s, At child path s → At t (k' :: path) s)
    (h : OnWay fresh update row child path s start rest old) :
    OnWay fresh update (k :: row) t (k' :: path) s (k :: start) rest old := by
  refine ⟨by rw [h.split, List.cons_append], .cons (hsame.imp_right fun hsame => ⟨hsame, ?_⟩)
    (h.places.imp fun _ _ hplace => hplace.behind hlift), h.before.imp_left (hlift path old), h.inserted⟩
  exact ⟨[k'], child, hlift [] child (.root child), List.mem_cons_self⟩

/-- Behind a key that the insertion added. -/
theorem OnWay.behind_new {k : Key} {row path start rest : List Key} {t s old : Trie β}
    (h : OnWay fresh update row (single fresh) path s start rest old) :
    OnWay fresh update (k :: row) t (k :: path) s (k :: start) rest old := by
  refine ⟨by rw [h.split, List.cons_append], .cons (Or.inl rfl)
    (h.places.imp fun _ _ hplace => Or.inl hplace.eq_of_single), Or.inr ?_, h.inserted⟩
  rcases h.before with hold | hold
  · exact (at_single hold).2
  · exact hold

/-- A node of a trie with a row inserted is one that was there before, or it lies on the way of the
row. -/
theorem at_insert {row : List Key} {t : Trie β} (ht : t.Sorted) {path : List Key} {s : Trie β}
    (h : At (insert fresh update row t) path s) :
    (path ≠ [] ∧ At t path s) ∨ ∃ start rest old, OnWay fresh update row t path s start rest old := by
  induction row generalizing t path s with
  | nil =>
    obtain ⟨leaf, literals, patterns⟩ := t
    cases h with
    | root => exact Or.inr ⟨[], [], _, .root fresh update [] _⟩
    | literal edge rest => exact Or.inl ⟨List.cons_ne_nil _ _, .literal edge rest⟩
    | pattern edge rest => exact Or.inl ⟨List.cons_ne_nil _ _, .pattern edge rest⟩
  | cons k row ih =>
    obtain ⟨leaf, literals, patterns⟩ := t
    -- Below a child that the row goes through, everything is as the induction says.
    have hchild : ∀ {k' : Key} {child : Trie β} {path : List Key}, k' = k ∨ k'.same k = true → child.Sorted →
        (∀ path s, At child path s → At (node leaf literals patterns) (k' :: path) s) →
        At (insert fresh update row child) path s →
        (k' :: path ≠ [] ∧ At (node leaf literals patterns) (k' :: path) s) ∨
          ∃ start rest old, OnWay fresh update (k :: row) (node leaf literals patterns) (k' :: path) s
            start rest old := by
      intro k' child path hsame hsorted hlift hs
      rcases ih hsorted hs with ⟨-, hs⟩ | ⟨start, rest, old, hs⟩
      · exact Or.inl ⟨List.cons_ne_nil _ _, hlift path s hs⟩
      · exact Or.inr ⟨k :: start, rest, old, hs.behind hsame hlift⟩
    have hnew : ∀ {path : List Key}, At (insert fresh update row (single fresh)) path s →
        ∃ start rest old, OnWay fresh update (k :: row) (node leaf literals patterns) (k :: path) s
          start rest old := by
      intro path hs
      rcases ih (sorted_single fresh) hs with ⟨hne, hs⟩ | ⟨start, rest, old, hs⟩
      · exact absurd (at_single hs).1 hne
      · exact ⟨k :: start, rest, old, hs.behind_new⟩
    cases k with
    | literal text =>
      cases h with
      | root => exact Or.inr ⟨[], _, _, .root fresh update (.literal text :: row) _⟩
      | pattern edge rest => exact Or.inl ⟨List.cons_ne_nil _ _, .pattern edge rest⟩
      | literal edge rest =>
        rw [mem_literals_insert ht.literals] at edge
        split at edge
        · next heq =>
          subst heq edge
          revert rest
          cases hfind : (node leaf literals patterns).literals.find? _ with
          | none => exact fun rest => Or.inr (hnew rest)
          | some old =>
            have hmem := ht.find? hfind
            exact hchild (Or.inl rfl) (ht.literal hmem) (fun _ _ hs => .literal hmem hs)
        · exact Or.inl ⟨List.cons_ne_nil _ _, .literal edge rest⟩
    | pattern p =>
      cases h with
      | root => exact Or.inr ⟨[], _, _, .root fresh update (.pattern p :: row) _⟩
      | literal edge rest => exact Or.inl ⟨List.cons_ne_nil _ _, .literal edge rest⟩
      | pattern edge rest =>
        rcases mem_alterPattern edge with hmem | heq | ⟨q, old, hmem, hsame, heq⟩
        · exact Or.inl ⟨List.cons_ne_nil _ _, .pattern hmem rest⟩
        · cases heq
          exact Or.inr (hnew rest)
        · cases heq
          exact hchild (Or.inr hsame) (ht.pattern hmem) (fun _ _ hs => .pattern hmem hs) rest

theorem sorted_insert {row : List Key} {t : Trie β} (h : t.literals.Sorted) :
    (insert fresh update row t).literals.Sorted := by
  obtain ⟨leaf, literals, patterns⟩ := t
  cases row with
  | nil => exact h
  | cons k row =>
    cases k with
    | literal text =>
      rw [insert]
      exact TextIndex.Sorted.alter h text _ _
    | pattern p => exact h

theorem Sorted.insert {t : Trie β} (h : t.Sorted) (row : List Key) : (t.insert fresh update row).Sorted := by
  intro path s hs
  obtain ⟨-, hs⟩ | ⟨start, rest, old, hway⟩ := at_insert h hs
  · exact h path s hs
  · rw [hway.inserted]
    obtain hold | rfl := hway.before
    · exact sorted_insert (h path old hold)
    · exact sorted_insert TextIndex.sorted_empty

/-- No node is lost: each is still there, perhaps with what is left of the row inserted into it. -/
theorem at_insert_of_at {row : List Key} {t : Trie β} (ht : t.Sorted) {path : List Key} {s : Trie β}
    (h : At t path s) :
    At (insert fresh update row t) path s ∨
      ∃ rest, At (insert fresh update row t) path (insert fresh update rest s) := by
  induction row generalizing t path s with
  | nil =>
    obtain ⟨leaf, literals, patterns⟩ := t
    cases h with
    | root => exact Or.inr ⟨[], .root _⟩
    | literal edge rest => exact Or.inl (.literal edge rest)
    | pattern edge rest => exact Or.inl (.pattern edge rest)
  | cons k row ih =>
    obtain ⟨leaf, literals, patterns⟩ := t
    cases k with
    | literal text =>
      cases h with
      | root => exact Or.inr ⟨.literal text :: row, .root _⟩
      | pattern edge rest => exact Or.inl (.pattern edge rest)
      | @literal _ child _ text' _ edge rest =>
        by_cases heq : text' = text
        · subst heq
          have hfind := ht.literals.mem_entries_iff.mp edge
          have haltered := mem_literals_insert_self fresh update ht.literals text' row
          rw [hfind] at haltered
          refine (ih (ht.literal edge) rest).imp (fun h => .literal haltered h) fun h => ?_
          obtain ⟨left, h⟩ := h
          exact ⟨left, .literal haltered h⟩
        · exact Or.inl (.literal ((mem_literals_insert ht.literals).mpr ((if_neg heq).mpr edge)) rest)
    | pattern p =>
      cases h with
      | root => exact Or.inr ⟨.pattern p :: row, .root _⟩
      | literal edge rest => exact Or.inl (.literal edge rest)
      | pattern edge rest =>
        have hchild := ht.pattern edge
        rcases mem_alterPattern_of_mem edge with edge | edge
        · exact Or.inl (.pattern edge rest)
        · refine (ih hchild rest).imp (fun h => .pattern edge h) fun h => ?_
          obtain ⟨left, h⟩ := h
          exact ⟨left, .pattern edge h⟩

/-- The inserted row leads to an updated value, which was at a node before or is fresh. -/
theorem exists_at_insert (fresh : β) (update : β → β) (row : List Key) {t : Trie β} (ht : t.Sorted) :
    ∃ path s b, At (insert fresh update row t) path s ∧ s.leaf = update b ∧
      (b = fresh ∨ ∃ old, At t path old ∧ old.leaf = b) ∧ List.Forall₂ (InPlaceOf t) path row := by
  induction row generalizing t with
  | nil =>
    obtain ⟨leaf, literals, patterns⟩ := t
    exact ⟨[], _, leaf, .root _, rfl, Or.inr ⟨_, .root _, rfl⟩, .nil⟩
  | cons k row ih =>
    obtain ⟨leaf, literals, patterns⟩ := t
    -- Behind a new key everything is new.
    have hnew : ∀ {b : β} {path : List Key}, (b = fresh ∨ ∃ old, At (single fresh) path old ∧ old.leaf = b) →
        b = fresh := by
      intro b path hold
      rcases hold with hold | ⟨old, hold, hleaf⟩
      · exact hold
      · rw [← hleaf, (at_single hold).2]
        rfl
    cases k with
    | literal text =>
      have hmem := mem_literals_insert_self fresh update ht.literals text row
      revert hmem
      cases hfind : (node leaf literals patterns).literals.find? text with
      | some child =>
        intro hmem
        have hchild := ht.find? hfind
        obtain ⟨path, s, b, hs, hleaf, hold, hkeys⟩ := ih (ht.literal hchild)
        have hlift : ∀ path s, At child path s →
            At (node leaf literals patterns) (.literal text :: path) s := fun _ _ hs => .literal hchild hs
        exact ⟨.literal text :: path, s, b, .literal hmem hs, hleaf,
          hold.imp_right fun ⟨old, hold, hb⟩ => ⟨old, hlift path old hold, hb⟩,
          .cons (Or.inl rfl) (hkeys.imp fun _ _ h => h.behind hlift)⟩
      | none =>
        intro hmem
        obtain ⟨path, s, b, hs, hleaf, hold, hkeys⟩ := ih (sorted_single fresh)
        exact ⟨.literal text :: path, s, b, .literal hmem hs, hleaf, Or.inl (hnew hold),
          .cons (Or.inl rfl) (hkeys.imp fun _ _ h => Or.inl h.eq_of_single)⟩
    | pattern p =>
      rcases alterPattern_self_mem p
        (fun t? => insert fresh update row (t?.getD (single fresh))) patterns
        with ⟨q, child, hchild, hsame, hmem⟩ | hmem
      · obtain ⟨path, s, b, hs, hleaf, hold, hkeys⟩ := ih (ht.pattern hchild)
        have hlift : ∀ path s, At child path s →
            At (node leaf literals patterns) (.pattern q :: path) s := fun _ _ hs => .pattern hchild hs
        have hq : InPlaceOf (node leaf literals patterns) (.pattern q) (.pattern p) :=
          Or.inr ⟨hsame, [.pattern q], child, hlift [] child (.root child), List.mem_cons_self⟩
        exact ⟨.pattern q :: path, s, b, .pattern hmem hs, hleaf,
          hold.imp_right fun ⟨old, hold, hb⟩ => ⟨old, hlift path old hold, hb⟩,
          .cons hq (hkeys.imp fun _ _ h => h.behind hlift)⟩
      · obtain ⟨path, s, b, hs, hleaf, hold, hkeys⟩ := ih (sorted_single fresh)
        exact ⟨.pattern p :: path, s, b, .pattern hmem hs, hleaf, Or.inl (hnew hold),
          .cons (Or.inl rfl) (hkeys.imp fun _ _ h => Or.inl h.eq_of_single)⟩

/-! ## Shape

What holds of every node of a trie, whatever was inserted, as long as the rows and the values are in
order. -/

/-- A node of a trie is in order. `K` says so of keys and `Good` of values; `Busy` is what the value
of a node has to be when nothing hangs below it. -/
structure NodeShape (K : Key → Prop) (depth : Nat) (Good Busy : β → Prop) (path : List Key)
    (s : Trie β) : Prop where
  sorted : s.literals.Sorted
  distinct : s.patterns.Pairwise fun a b => a.1.same b.1 = false ∧ b.1.same a.1 = false
  keys : ∀ k ∈ path, K k
  depth : path.length ≤ depth
  good : Good s.leaf
  busy : path ≠ [] → s.Childless → Busy s.leaf

def Shape (K : Key → Prop) (depth : Nat) (Good Busy : β → Prop) (t : Trie β) : Prop :=
  ∀ path s, At t path s → NodeShape K depth Good Busy path s

section

variable {K : Key → Prop} {depth : Nat} {Good Busy : β → Prop}

theorem Shape.sorted {t : Trie β} (h : t.Shape K depth Good Busy) : t.Sorted := fun path s hs => (h path s hs).sorted

theorem shape_single {leaf : β} (h : Good leaf) : (single leaf).Shape K depth Good Busy := by
  intro path s hs
  obtain ⟨rfl, rfl⟩ := at_single hs
  exact ⟨TextIndex.sorted_empty, List.Pairwise.nil, fun _ hk => (List.not_mem_nil hk).elim,
    Nat.zero_le _, h, fun hne => absurd rfl hne⟩

theorem Shape.imp {Good' : β → Prop} {t : Trie β} (h : t.Shape K depth Good Busy)
    (hgood : ∀ b, Good b → Good' b) : t.Shape K depth Good' Busy := by
  intro path s hs
  obtain ⟨hsorted, hdistinct, hkeys, hdepth, hleaf, hbusy⟩ := h path s hs
  exact ⟨hsorted, hdistinct, hkeys, hdepth, hgood _ hleaf, hbusy⟩

theorem distinct_insert {row : List Key} {t : Trie β}
    (h : t.patterns.Pairwise fun a b => a.1.same b.1 = false ∧ b.1.same a.1 = false) :
    (insert fresh update row t).patterns.Pairwise fun a b =>
      a.1.same b.1 = false ∧ b.1.same a.1 = false := by
  obtain ⟨leaf, literals, patterns⟩ := t
  cases row with
  | nil => exact h
  | cons k row =>
    cases k with
    | literal text => exact h
    | pattern p =>
      have hmap : (patterns.map Prod.fst).Pairwise fun p q => p.same q = false ∧ q.same p = false :=
        List.pairwise_map.mpr h
      refine List.pairwise_map.mp
        (show ((alterPattern p _ patterns).map Prod.fst).Pairwise
          fun p q => p.same q = false ∧ q.same p = false from ?_)
      rcases alterPattern_keys p (fun t? => insert fresh update row (t?.getD (single fresh))) patterns
        with hkeys | ⟨hnone, hkeys⟩
      · rw [hkeys]
        exact hmap
      · rw [hkeys]
        refine List.pairwise_append.mpr ⟨hmap, List.pairwise_singleton _ p, fun q hq p' hp' => ?_⟩
        obtain ⟨e, he, rfl⟩ := List.mem_map.mp hq
        rw [List.mem_singleton.mp hp', p.same_comm, hnone e he]
        exact ⟨rfl, rfl⟩

theorem leaf_insert (row : List Key) (t : Trie β) :
    (insert fresh update row t).leaf = if row = [] then update t.leaf else t.leaf := by
  obtain ⟨leaf, literals, patterns⟩ := t
  cases row with
  | nil => rfl
  | cons k row => cases k <;> rfl

theorem alterPattern_ne_nil (p : SegmentPattern) (f : Option (Trie β) → Trie β)
    (l : List (SegmentPattern × Trie β)) : alterPattern p f l ≠ [] := by
  rcases alterPattern_self_mem p f l with ⟨q, old, -, -, h⟩ | h
  · exact List.ne_nil_of_mem h
  · exact List.ne_nil_of_mem h

/-- Something hangs below a node into which a longer row was inserted. -/
theorem eq_nil_of_childless_insert {row : List Key} {t : Trie β} (ht : t.literals.Sorted)
    (h : (insert fresh update row t).Childless) : row = [] := by
  obtain ⟨leaf, literals, patterns⟩ := t
  cases row with
  | nil => rfl
  | cons k row =>
    cases k with
    | literal text => exact absurd h.1 (List.ne_nil_of_mem (mem_literals_insert_self fresh update ht text row))
    | pattern p => exact absurd h.2 (alterPattern_ne_nil _ _ _)

/-- An insertion keeps all nodes in order. -/
theorem Shape.insert {t : Trie β} (h : t.Shape K depth Good Busy) {row : List Key}
    (hkeys : ∀ k ∈ row, K k) (hdepth : row.length ≤ depth) (hfresh : Good fresh)
    (hgood : ∀ b, Good b → Good (update b)) (hbusy : ∀ b, Good b → Busy (update b)) :
    (t.insert fresh update row).Shape K depth Good Busy := by
  intro path s hs
  rcases at_insert h.sorted hs with ⟨-, hs⟩ | ⟨start, rest, old, hway⟩
  · exact h path s hs
  · obtain ⟨rfl, hplaces, hold, rfl⟩ := hway
    have hlength := hplaces.length_eq
    -- The node that the rest of the row was inserted into was in order, if it was there at all.
    obtain ⟨hsorted, hdistinct, hleaf⟩ : old.literals.Sorted ∧
        (old.patterns.Pairwise fun a b => a.1.same b.1 = false ∧ b.1.same a.1 = false) ∧
        Good old.leaf := by
      rcases hold with hold | rfl
      · exact ⟨(h path old hold).sorted, (h path old hold).distinct, (h path old hold).good⟩
      · exact ⟨TextIndex.sorted_empty, List.Pairwise.nil, hfresh⟩
    refine ⟨sorted_insert hsorted, distinct_insert hdistinct, fun k hk => ?_, ?_, ?_, fun _ hnone => ?_⟩
    · rcases keys_of_places hplaces k hk with hk | ⟨path', s', hs', hk⟩
      · exact hkeys k (List.mem_append_left rest hk)
      · exact (h path' s' hs').keys k hk
    · rw [List.length_append] at hdepth
      omega
    · rw [leaf_insert]
      split
      · exact hgood _ hleaf
      · exact hleaf
    · rw [leaf_insert, if_pos (eq_nil_of_childless_insert hsorted hnone)]
      exact hbusy _ hleaf

end

end Trie

end UriRouting

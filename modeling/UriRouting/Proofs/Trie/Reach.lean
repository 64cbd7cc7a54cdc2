import UriRouting.Proofs.Trie.Arrivals
import UriRouting.Proofs.Trie.Nodes
/-!
Where edited rows lead.

In a trie that was built by edits every edited row leads to a node with what the edit made of the value
there, as long as keys that are the same are equal: `build_reaches`. A key need not be the same as
itself. Walks that a row takes come by its node: `arrival_of_at`.
-/

namespace UriRouting

variable {β : Type}

theorem build_sorted (fresh : β) (edits : List (Edit β)) : (Trie.build fresh edits).Sorted := by
  induction edits using List.reverseRecOn with
  | nil => exact Trie.sorted_single fresh
  | append_singleton edits e ih =>
    rw [build_concat]
    exact ih.insert e.row

section

variable {fresh : β} {S : Key → Prop} (Good : β → Prop) {edits : List (Edit β)}

/-- Keys and values of the nodes are those of the edits, and the tables are in order. -/
theorem build_good (hE : Over S edits) (hfresh : Good fresh)
    (hgood : ∀ e ∈ edits, ∀ b, Good b → Good (e.update b)) {path : List Key} {s : Trie β}
    (h : Trie.At (Trie.build fresh edits) path s) : (∀ k ∈ path, S k) ∧ s.literals.Sorted ∧ Good s.leaf := by
  induction edits using List.reverseRecOn generalizing path s with
  | nil =>
    obtain ⟨rfl, rfl⟩ := Trie.at_single h
    exact ⟨fun k hk => (List.not_mem_nil hk).elim, TextIndex.sorted_empty, hfresh⟩
  | append_singleton edits e ih =>
    have ih : ∀ {path : List Key} {s : Trie β}, Trie.At (Trie.build fresh edits) path s →
        (∀ k ∈ path, S k) ∧ s.literals.Sorted ∧ Good s.leaf :=
      ih hE.left fun e' he' => hgood e' (List.mem_append_left [e] he')
    have he : e ∈ edits ++ [e] := List.mem_append_right edits List.mem_cons_self
    rw [build_concat] at h
    rcases Trie.at_insert (build_sorted fresh edits) h with ⟨-, h⟩ | ⟨start, rest, old, hsplit, hplaces, hold, rfl⟩
    · exact ih h
    · have hbefore : old.literals.Sorted ∧ Good old.leaf := by
        rcases hold with hold | rfl
        · exact (ih hold).2
        · exact ⟨TextIndex.sorted_empty, hfresh⟩
      refine ⟨fun k hk => ?_, Trie.sorted_insert hbefore.1, ?_⟩
      · rcases Trie.keys_of_places hplaces k hk with hk | ⟨path', s', hs', hk⟩
        · refine hE e he k ?_
          rw [hsplit]
          exact List.mem_append_left rest hk
        · exact (ih hs').1 k hk
      · rw [Trie.leaf_insert]
        split
        · exact hgood e he _ hbefore.2
        · exact hbefore.2

/-- No key is followed in the place of another one. -/
theorem eq_of_inPlaceOf (hS : Faithful S) {t : Trie β}
    (ht : ∀ path s, Trie.At t path s → ∀ k ∈ path, S k) {path row : List Key} (hrow : ∀ k ∈ row, S k)
    (h : List.Forall₂ (Trie.InPlaceOf t) path row) : path = row := by
  induction h with
  | nil => rfl
  | @cons k' k path row hk _ ih =>
    obtain ⟨hk', hrow⟩ := List.forall_mem_cons.mp hrow
    rw [ih hrow]
    rcases hk with rfl | ⟨hsame, path', s, hs, hmem⟩
    · rfl
    · rw [hS k' (ht path' s hs k' hmem) k hk' hsame]

/-- An edited row leads to a value with what the edit gives to every value and no other edit takes
away. -/
theorem build_reaches (hS : Faithful S) (hE : Over S edits) (hfresh : Good fresh)
    (hgood : ∀ e ∈ edits, ∀ b, Good b → Good (e.update b)) (P : β → Prop) {e : Edit β} (he : e ∈ edits)
    (hnew : ∀ b, Good b → P (e.update b))
    (hkeep : ∀ e' ∈ edits, ∀ b, Good b → P b → P (e'.update b)) :
    ∃ s, Trie.At (Trie.build fresh edits) e.row s ∧ P s.leaf := by
  induction edits using List.reverseRecOn with
  | nil => cases he
  | append_singleton edits last ih =>
    have hmem : ∀ e' ∈ edits, e' ∈ edits ++ [last] := fun e' he' => List.mem_append_left [last] he'
    have hlast : last ∈ edits ++ [last] := List.mem_append_right edits List.mem_cons_self
    have hold : ∀ {path : List Key} {s : Trie β}, Trie.At (Trie.build fresh edits) path s →
        (∀ k ∈ path, S k) ∧ s.literals.Sorted ∧ Good s.leaf :=
      build_good Good hE.left hfresh fun e' he' => hgood e' (hmem e' he')
    rw [build_concat]
    rcases List.mem_append.mp he with he | he
    · obtain ⟨s, hs, hP⟩ := ih hE.left (fun e' he' => hgood e' (hmem e' he')) he
        fun e' he' => hkeep e' (hmem e' he')
      have hinsert : Trie.At (Trie.insert fresh last.update last.row (Trie.build fresh edits)) e.row s ∨
          ∃ rest, Trie.At (Trie.insert fresh last.update last.row (Trie.build fresh edits)) e.row
            (Trie.insert fresh last.update rest s) :=
        Trie.at_insert_of_at (build_sorted fresh edits) hs
      rcases hinsert with h | ⟨rest, h⟩
      · exact ⟨s, h, hP⟩
      · refine ⟨_, h, ?_⟩
        rw [Trie.leaf_insert]
        split
        · exact hkeep last hlast _ (hold hs).2.2 hP
        · exact hP
    · rw [List.mem_singleton] at he
      subst he
      obtain ⟨path, s, b, hs, hleaf, hb, hkeys⟩ :=
        Trie.exists_at_insert fresh e.update e.row (build_sorted fresh edits)
      rw [eq_of_inPlaceOf hS (fun path s hs => (hold hs).1) (hE e hlast) hkeys] at hs
      refine ⟨s, hs, ?_⟩
      rw [hleaf]
      refine hnew b ?_
      rcases hb with rfl | ⟨old, hat, rfl⟩
      · exact hfresh
      · exact (hold hat).2.2

end

/-- A walk comes by the node of a row that takes its segments. -/
theorem arrival_of_at {t : Trie β} (hsorted : t.Sorted)
    {row : List Key} {s : Trie β} (h : Trie.At t row s) {segments : List String} {captures : Captures}
    (htakes : RowTakes row segments captures) : ⟨row, s.leaf, captures⟩ ∈ t.arrivals segments := by
  induction h generalizing segments captures with
  | root t =>
    cases htakes
    obtain ⟨leaf, literals, patterns⟩ := t
    exact List.mem_cons_self
  | @literal t child s text row edge rest ih =>
    cases htakes with
    | cons head tail =>
      obtain ⟨rfl, rfl⟩ := takes_literal_iff.mp head
      have hfind := (hsorted [] t (.root t)).mem_entries_iff.mp edge
      have hchild := ih (fun path s hs => hsorted _ s (.literal edge hs)) tail
      obtain ⟨leaf, literals, patterns⟩ := t
      rw [Trie.arrivals, show literals.find? _ = some child from hfind]
      exact List.mem_append_left _ (List.mem_map.mpr ⟨_, hchild, rfl⟩)
  | @pattern t child s p row edge rest ih =>
    cases htakes with
    | cons head tail =>
      have hcapture := takes_pattern_iff.mp head
      have hchild := ih (fun path s hs => hsorted _ s (.pattern edge hs)) tail
      obtain ⟨leaf, literals, patterns⟩ := t
      rw [Trie.arrivals]
      refine List.mem_append_right _ (List.mem_flatMap.mpr ⟨_, edge, ?_⟩)
      simp only [hcapture]
      exact List.mem_map.mpr ⟨_, hchild, rfl⟩

/-- Walks arrive at nodes. -/
theorem at_of_arrival {t : Trie β} {segments : List String} {a : Arrival β}
    (h : a ∈ t.arrivals segments) : ∃ s, Trie.At t a.row s ∧ s.leaf = a.value := by
  induction segments generalizing t a with
  | nil =>
    obtain ⟨leaf, literals, patterns⟩ := t
    rw [Trie.arrivals, List.mem_singleton] at h
    subst h
    exact ⟨_, .root _, rfl⟩
  | cons segment rest ih =>
    obtain ⟨leaf, literals, patterns⟩ := t
    rw [Trie.arrivals] at h
    rcases List.mem_append.mp h with h | h
    · split at h
      · next child hchild =>
        obtain ⟨a', ha', rfl⟩ := List.mem_map.mp h
        obtain ⟨s, hs, hleaf⟩ := ih ha'
        exact ⟨s, .literal (TextIndex.mem_entries_of_find? hchild) hs, hleaf⟩
      · cases h
    · obtain ⟨⟨p, child⟩, hedge, h⟩ := List.mem_flatMap.mp h
      dsimp only at h
      split at h
      · obtain ⟨a', ha', rfl⟩ := List.mem_map.mp h
        obtain ⟨s, hs, hleaf⟩ := ih ha'
        exact ⟨s, .pattern hedge hs, hleaf⟩
      · cases h

/-- The keys that a walk follows take its segments. -/
theorem rowTakes_of_arrival {t : Trie β} {segments : List String} {a : Arrival β}
    (h : a ∈ t.arrivals segments) : RowTakes a.row segments a.captures := by
  induction segments generalizing t a with
  | nil =>
    obtain ⟨leaf, literals, patterns⟩ := t
    rw [Trie.arrivals, List.mem_singleton] at h
    subst h
    exact .nil
  | cons segment rest ih =>
    obtain ⟨leaf, literals, patterns⟩ := t
    rw [Trie.arrivals] at h
    rcases List.mem_append.mp h with h | h
    · split at h
      · obtain ⟨a', ha', rfl⟩ := List.mem_map.mp h
        exact .cons (.literal segment) (ih ha')
      · cases h
    · obtain ⟨⟨p, child⟩, -, h⟩ := List.mem_flatMap.mp h
      dsimp only at h
      split at h
      · next here hcapture =>
        obtain ⟨a', ha', rfl⟩ := List.mem_map.mp h
        exact .cons (takes_pattern_iff.mpr hcapture) (ih ha')
      · cases h

end UriRouting

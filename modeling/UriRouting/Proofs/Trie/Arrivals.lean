import UriRouting.Proofs.Trie.Events
import UriRouting.Proofs.Trie.Rows
/-!
Where walks arrive.

An arrival is a row of keys that a walk followed to its end. A trie that was built by edits is walked
through every row that takes the segments and is the start of an edited one, each once and in the
order of `RowBefore`.
-/

namespace UriRouting

variable {β ε : Type}

/-- An end of a walk: the keys it followed, the value there, and what was captured on the way. -/
structure Arrival (β : Type) where
  row : List Key
  value : β
  captures : Captures

def Arrival.behind (k : Key) (here : Captures) (a : Arrival β) : Arrival β :=
  ⟨k :: a.row, a.value, here ++ a.captures⟩

/-- The arrivals of a walk, in order. -/
def Trie.arrivals : List String → Trie β → List (Arrival β)
  | [], node leaf _ _ => [⟨[], leaf, []⟩]
  | segment :: rest, node _ literals patterns =>
    (match literals.find? segment with
      | some child => (arrivals rest child).map (.behind (.literal segment) [])
      | none => [])
    ++ patterns.flatMap fun (p, child) =>
      match p.capture? segment with
      | some here => (arrivals rest child).map (.behind (.pattern p) here)
      | none => []

theorem filterMap_end?_questions (asked : List Evaluation) :
    (asked.map (Event.question : Evaluation → Event ε)).filterMap Event.end? = [] := by
  rw [List.filterMap_map]
  exact List.filterMap_eq_nil_iff.mpr fun _ _ => rfl

theorem filterMap_end?_events (ends : β → Captures → List (Event ε)) (segments : List String)
    (t : Trie β) (captures : Captures) :
    (t.events ends segments captures).filterMap Event.end?
      = (t.arrivals segments).flatMap fun a =>
          (ends a.value (captures ++ a.captures)).filterMap Event.end? := by
  induction segments generalizing t captures with
  | nil =>
    obtain ⟨leaf, literals, patterns⟩ := t
    simp [Trie.events, Trie.arrivals]
  | cons segment rest ih =>
    obtain ⟨leaf, literals, patterns⟩ := t
    rw [Trie.events, Trie.arrivals, List.filterMap_append, List.flatMap_append]
    congr 1
    · cases literals.find? segment with
      | none => rfl
      | some child =>
        rw [List.filterMap_cons, ih]
        simp [Event.end?, Arrival.behind, List.flatMap_map]
    · rw [List.filterMap_flatMap, List.flatMap_assoc]
      congr 1
      funext child
      obtain ⟨p, child⟩ := child
      simp only [List.filterMap_cons, List.filterMap_append, filterMap_end?_questions, Event.end?,
        List.nil_append]
      cases p.capture? segment with
      | none => rfl
      | some here => simp only [ih, List.flatMap_map, Arrival.behind, List.append_assoc]

/-! ## Arrivals in a trie built by edits -/

/-- What edits leave at the end of a row. -/
def valueAt (fresh : β) : List Key → List (Edit β) → β
  | [], edits => rootValue fresh edits
  | k :: row, edits => valueAt fresh row (below k edits)

/-- A row is the start of an edited one. -/
def Reached (row : List Key) (edits : List (Edit β)) : Prop := row = [] ∨ ∃ e ∈ edits, row <+: e.row

section

variable {S : Key → Prop}

theorem reached_cons_iff (hS : Sharp S) {k : Key} (hk : S k) {edits : List (Edit β)}
    (hE : Over S edits) {row : List Key} :
    Reached (k :: row) edits ↔ below k edits ≠ [] ∧ Reached row (below k edits) := by
  constructor
  · intro h
    rcases h with h | ⟨e, he, rest, hrest⟩
    · cases h
    · have hmem : ⟨row ++ rest, e.update⟩ ∈ below k edits := by
        rw [mem_below hS hk hE, ← List.cons_append, hrest]
        exact he
      exact ⟨List.ne_nil_of_mem hmem, Or.inr ⟨_, hmem, List.prefix_append row rest⟩⟩
  · intro h
    obtain ⟨hne, h⟩ := h
    refine Or.inr ?_
    rcases h with rfl | ⟨e, he, hrow⟩
    · obtain ⟨e, he⟩ := List.exists_mem_of_ne_nil _ hne
      exact ⟨_, (mem_below hS hk hE).mp he, List.prefix_cons_inj k |>.mpr e.row.nil_prefix⟩
    · exact ⟨_, (mem_below hS hk hE).mp he, (List.prefix_cons_inj k).mpr hrow⟩

/-- The keys of a reached row are among those of the edits. -/
theorem Reached.keys {row : List Key} {edits : List (Edit β)} (h : Reached row edits)
    (hE : Over S edits) : ∀ k ∈ row, S k := by
  rcases h with rfl | ⟨e, he, hstart⟩
  · exact fun k hk => nomatch hk
  · exact fun k hk => hE e he k (hstart.subset hk)

theorem literal_of_below_ne_nil {text : String} {edits : List (Edit β)} (hE : Over S edits)
    (h : below (.literal text) edits ≠ []) : S (.literal text) := by
  obtain ⟨e', he'⟩ := List.exists_mem_of_ne_nil _ h
  obtain ⟨e, he, hmap⟩ := List.mem_filterMap.mp he'
  obtain ⟨row, hrow, -⟩ := Option.map_eq_some_iff.mp hmap
  rw [stripKey_literal] at hrow
  exact hE.head he hrow

/-- The first step of a walk leads through a key that some row begins with and that takes the
segment. -/
theorem mem_arrivals_build_cons (fresh : β) (hS : Sharp S) {edits : List (Edit β)}
    (hE : Over S edits) {segment : String} {rest : List String} {a : Arrival β} :
    a ∈ (Trie.build fresh edits).arrivals (segment :: rest) ↔
      ∃ k here b, S k ∧ below k edits ≠ [] ∧ k.Takes segment here ∧
        b ∈ (Trie.build fresh (below k edits)).arrivals rest ∧ b.behind k here = a := by
  obtain ⟨literals, hliterals, hnode⟩ := build_spec fresh hS hE
  have hpatterns := (firstPatterns_spec hS hE).2
  rw [hnode, Trie.arrivals, List.mem_append, List.mem_flatMap, hliterals.2]
  constructor
  · intro h
    rcases h with h | ⟨child, hchild, h⟩
    · split at h
      · next hfind =>
        split at hfind
        · cases hfind
        · next hne =>
          cases hfind
          obtain ⟨b, hb, hab⟩ := List.mem_map.mp h
          exact ⟨_, [], b, literal_of_below_ne_nil hE hne, hne, .literal segment, hb, hab⟩
      · cases h
    · obtain ⟨p, hp, rfl⟩ := List.mem_map.mp hchild
      obtain ⟨e, he, row, hrow⟩ := (hpatterns p).mp hp
      have hk : S (.pattern p) := hE.head he hrow
      have hne : below (.pattern p) edits ≠ [] := by
        refine List.ne_nil_of_mem ((mem_below hS hk hE).mpr ?_ : ⟨row, e.update⟩ ∈ _)
        rw [← hrow]
        exact he
      dsimp only at h
      split at h
      · next here hcapture =>
        obtain ⟨b, hb, hab⟩ := List.mem_map.mp h
        exact ⟨_, here, b, hk, hne, takes_pattern_iff.mpr hcapture, hb, hab⟩
      · cases h
  · intro h
    obtain ⟨k, here, b, hk, hne, htakes, hb, hab⟩ := h
    cases k with
    | literal text =>
      obtain ⟨rfl, rfl⟩ := takes_literal_iff.mp htakes
      rw [if_neg hne]
      exact Or.inl (List.mem_map.mpr ⟨b, hb, hab⟩)
    | pattern p =>
      obtain ⟨e, he⟩ := List.exists_mem_of_ne_nil _ hne
      have hp : p ∈ firstPatterns edits :=
        (hpatterns p).mpr ⟨_, (mem_below hS hk hE).mp he, e.row, rfl⟩
      refine Or.inr ⟨_, List.mem_map.mpr ⟨p, hp, rfl⟩, ?_⟩
      simp only [takes_pattern_iff.mp htakes]
      exact List.mem_map.mpr ⟨b, hb, hab⟩

/-- A walk arrives at the reached rows that take the segments, with the value that the edits left
there. -/
theorem mem_arrivals_build (fresh : β) (hS : Sharp S) {edits : List (Edit β)} (hE : Over S edits)
    {segments : List String} {a : Arrival β} :
    a ∈ (Trie.build fresh edits).arrivals segments ↔
      RowTakes a.row segments a.captures ∧ Reached a.row edits ∧ a.value = valueAt fresh a.row edits := by
  induction segments generalizing edits a with
  | nil =>
    obtain ⟨literals, hliterals, hnode⟩ := build_spec fresh hS hE
    obtain ⟨row, value, captures⟩ := a
    rw [hnode, Trie.arrivals, List.mem_singleton, rowTakes_nil_iff, Arrival.mk.injEq]
    constructor
    · intro h
      obtain ⟨rfl, rfl, rfl⟩ := h
      exact ⟨⟨rfl, rfl⟩, Or.inl rfl, rfl⟩
    · intro h
      obtain ⟨⟨rfl, rfl⟩, -, h⟩ := h
      exact ⟨rfl, h, rfl⟩
  | cons segment rest ih =>
    rw [mem_arrivals_build_cons fresh hS hE, rowTakes_cons_iff]
    constructor
    · intro h
      obtain ⟨k, here, b, hk, hne, htakes, hb, rfl⟩ := h
      obtain ⟨hrow, hreached, hvalue⟩ := (ih (hE.below k)).mp hb
      exact ⟨⟨k, b.row, here, b.captures, rfl, rfl, htakes, hrow⟩,
        (reached_cons_iff hS hk hE).mpr ⟨hne, hreached⟩, hvalue⟩
    · obtain ⟨row, value, captures⟩ := a
      intro h
      obtain ⟨⟨k, row, here, later, rfl, rfl, htakes, hrow⟩, hreached, hvalue⟩ := h
      have hk : S k := hreached.keys hE k List.mem_cons_self
      obtain ⟨hne, hreached⟩ := (reached_cons_iff hS hk hE).mp hreached
      refine ⟨k, here, ⟨row, value, later⟩, hk, hne, htakes, ?_, rfl⟩
      exact (ih (hE.below k)).mpr ⟨hrow, hreached, hvalue⟩

open Classical in
/-- What edits leave at the end of a row is what those of the very row make. -/
theorem valueAt_eq_foldl (fresh : β) (hS : Sharp S) {row : List Key} (hrow : ∀ k ∈ row, S k)
    {edits : List (Edit β)} (hE : Over S edits) :
    valueAt fresh row edits = edits.foldl (fun b e => if e.row = row then e.update b else b) fresh := by
  induction row generalizing edits with
  | nil => simp only [valueAt, rootValue, List.isEmpty_iff]
  | cons k row ih =>
    have hk := hrow k List.mem_cons_self
    rw [valueAt, ih (fun k' hk' => hrow k' (List.mem_cons_of_mem k hk')) (hE.below k), below,
      List.foldl_filterMap]
    refine List.foldl_ext _ _ fresh fun b e he => ?_
    have hstrip : ∀ rest, stripKey k e.row = some rest ↔ e.row = k :: rest := fun rest =>
      stripKey_eq_some hS hk (hE e he)
    cases hs : stripKey k e.row with
    | none =>
      have hne : e.row ≠ k :: row := fun h => by
        rw [(hstrip row).mpr h] at hs
        cases hs
      rw [if_neg hne]
      rfl
    | some rest =>
      rw [(hstrip rest).mp hs]
      simp only [Option.map_some, List.cons.injEq, true_and]

/-! ## Their order -/

abbrev rowsOf (edits : List (Edit β)) : List (List Key) := edits.map Edit.row

theorem rowsOf_below (k : Key) (edits : List (Edit β)) :
    rowsOf (below k edits) = (rowsOf edits).filterMap (stripKey k) := by
  unfold rowsOf below
  rw [List.map_filterMap, List.filterMap_map]
  congr 1
  funext e
  simp [Option.map_map, Function.comp_def]

theorem startsWith_pattern_iff (hS : Sharp S) {p : SegmentPattern} (hp : S (.pattern p))
    {row : List Key} (hrow : ∀ k ∈ row, S k) :
    startsWith row [.pattern p] = true ↔ ∃ rest, row = .pattern p :: rest := by
  rw [startsWith_cons]
  simp only [startsWith, Option.any_true, Option.isSome_iff_exists, stripKey_eq_some hS hp hrow]

theorem mem_firstPatterns_iff (hS : Sharp S) {edits : List (Edit β)} (hE : Over S edits)
    {p : SegmentPattern} (hp : S (.pattern p)) :
    p ∈ firstPatterns edits ↔ firstStart (rowsOf edits) [.pattern p] < (rowsOf edits).length := by
  rw [(firstPatterns_spec hS hE).2, firstStart, List.findIdx_lt_length]
  constructor
  · intro h
    obtain ⟨e, he, hrow⟩ := h
    exact ⟨e.row, List.mem_map_of_mem he, (startsWith_pattern_iff hS hp (hE e he)).mpr hrow⟩
  · intro h
    obtain ⟨row, hrow, h⟩ := h
    obtain ⟨e, he, rfl⟩ := List.mem_map.mp hrow
    exact ⟨e, he, (startsWith_pattern_iff hS hp (hE e he)).mp h⟩

theorem firstPatterns_pairwise (hS : Sharp S) {edits : List (Edit β)} (hE : Over S edits) :
    (firstPatterns edits).Pairwise fun p q =>
      firstStart (rowsOf edits) [.pattern p] < firstStart (rowsOf edits) [.pattern q] := by
  induction edits using List.reverseRecOn with
  | nil => exact List.Pairwise.nil
  | append_singleton edits e ih =>
    have hin := firstPatterns_mem hS hE.left
    have hrows : rowsOf (edits ++ [e]) = rowsOf edits ++ [e.row] := List.map_append
    have hold : ∀ q ∈ firstPatterns edits,
        firstStart (rowsOf edits) [.pattern q] < (rowsOf edits).length := fun q hq =>
      (mem_firstPatterns_iff hS hE.left (hin q hq)).mp hq
    have hpairs : (firstPatterns edits).Pairwise fun p q =>
        firstStart (rowsOf (edits ++ [e])) [.pattern p]
          < firstStart (rowsOf (edits ++ [e])) [.pattern q] := by
      refine (ih hE.left).imp_of_mem fun hp hq h => ?_
      rw [hrows, firstStart_append_of_lt (hold _ hp), firstStart_append_of_lt (hold _ hq)]
      exact h
    rw [firstPatterns_concat]
    cases hrow : e.row with
    | nil => exact hpairs
    | cons k row =>
      cases k with
      | literal text => exact hpairs
      | pattern p =>
        have hp : S (.pattern p) := hE.head (List.mem_append_right edits List.mem_cons_self) hrow
        by_cases hmem : p ∈ firstPatterns edits
        · rw [addFirst_of_mem hS hp hmem]
          exact hpairs
        · rw [addFirst_of_not_mem hS hin hp hmem]
          refine List.pairwise_append.mpr ⟨hpairs, List.pairwise_singleton _ p, fun q hq p' hp' => ?_⟩
          rw [List.mem_singleton] at hp'
          subst hp'
          have hlast := length_le_firstStart_append
            (fun h => hmem ((mem_firstPatterns_iff hS hE.left hp).mpr h)) [e.row]
          have hq' := hold q hq
          rw [hrows, firstStart_append_of_lt hq']
          omega

theorem arrivals_build_pairwise (fresh : β) (hS : Sharp S) {edits : List (Edit β)}
    (hE : Over S edits) (segments : List String) :
    ((Trie.build fresh edits).arrivals segments).Pairwise fun a b =>
      RowBefore (rowsOf edits) a.row b.row := by
  induction segments generalizing edits with
  | nil =>
    obtain ⟨literals, -, hnode⟩ := build_spec fresh hS hE
    rw [hnode, Trie.arrivals]
    exact List.pairwise_singleton _ _
  | cons segment rest ih =>
    obtain ⟨literals, hliterals, hnode⟩ := build_spec fresh hS hE
    have hbehind : ∀ (k : Key) (here : Captures),
        (((Trie.build fresh (below k edits)).arrivals rest).map (Arrival.behind k here)).Pairwise
          fun a b => RowBefore (rowsOf edits) a.row b.row := by
      intro k here
      refine List.pairwise_map.mpr ((ih (hE.below k)).imp fun h => ?_)
      rw [rowsOf_below] at h
      exact h.cons
    have hpattern : ∀ (p : SegmentPattern) (a : Arrival β),
        a ∈ (match p.capture? segment with
          | some here =>
            ((Trie.build fresh (below (.pattern p) edits)).arrivals rest).map
              (Arrival.behind (.pattern p) here)
          | none => []) → ∃ row, a.row = .pattern p :: row := by
      intro p a ha
      split at ha
      · obtain ⟨b, -, rfl⟩ := List.mem_map.mp ha
        exact ⟨b.row, rfl⟩
      · cases ha
    rw [hnode, Trie.arrivals, List.flatMap_map, hliterals.2]
    refine List.pairwise_append.mpr ⟨?_, List.pairwise_flatMap.mpr ⟨fun p _ => ?_, ?_⟩, ?_⟩
    · split
      · next h =>
        split at h
        · cases h
        · cases h; exact hbehind _ _
      · exact List.Pairwise.nil
    · dsimp only
      split
      · exact hbehind _ _
      · exact List.Pairwise.nil
    · refine (firstPatterns_pairwise hS hE).imp fun hlt a ha b hb => ?_
      obtain ⟨row, ha⟩ := hpattern _ a ha
      obtain ⟨row', hb⟩ := hpattern _ b hb
      rw [ha, hb]
      exact .pattern [] _ _ row row' hlt
    · intro a ha b hb
      obtain ⟨p, -, hb⟩ := List.mem_flatMap.mp hb
      obtain ⟨row', hb⟩ := hpattern p b hb
      split at ha
      · obtain ⟨a, -, rfl⟩ := List.mem_map.mp ha
        rw [hb]
        exact .literal [] segment p a.row row'
      · cases ha

end

end UriRouting

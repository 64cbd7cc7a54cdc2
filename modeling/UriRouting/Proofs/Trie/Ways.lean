import UriRouting.Proofs.Trie.Counting
import UriRouting.Proofs.Trie.Events
/-!
Which nodes a walk tries.

A way leads from the root of a trie to one of its nodes, turn by turn, and `Trie.ways` lists one way
for each node. `Trie.descendNoting` walks as `Trie.descend` does and notes the way to each node that it
tries. `descend_notes` says that without the notes it is the same walk, that no way is noted twice, and
that a note is made for each step.
-/

namespace UriRouting

variable {β ε σ : Type}

/-! ## Ways -/

/-- A turn at a node: to the child of a literal, to the child of the pattern at a place, or into the
trie of hosts there. -/
inductive Turn
  | literal (text : String)
  | pattern (place : Nat)
  | hosts
  deriving DecidableEq, Repr

abbrev Way := List Turn

/-- A way leads to the root of a trie, of paths or of hosts. -/
def Way.ToRoot (way : Way) : Prop := way = [] ∨ way.getLast? = some .hosts

theorem Way.not_toRoot_singleton {turn : Turn} (h : turn ≠ .hosts) : ¬ Way.ToRoot [turn] := by
  simp [ToRoot, h]

theorem Way.not_toRoot_cons (turn : Turn) {way : Way} (h : ¬ Way.ToRoot way) :
    ¬ Way.ToRoot (turn :: way) := by
  cases way with
  | nil => exact absurd (Or.inl rfl) h
  | cons next way =>
    intro hroot
    refine h (Or.inr ?_)
    rw [ToRoot, List.getLast?_cons_cons] at hroot
    exact hroot.resolve_left (List.cons_ne_nil _ _)

namespace Trie

mutual

/-- The ways to the nodes of a trie. `inside` gives those that go on in the value at a node. -/
def ways (inside : β → List Way) : Trie β → List Way
  | node leaf ⟨⟨texts⟩, ⟨children⟩⟩ patterns =>
    [] :: (inside leaf ++ literalWays inside texts children ++ patternWays inside 0 patterns)

def literalWays (inside : β → List Way) : List String → List (Trie β) → List Way
  | text :: texts, t :: rest => (t.ways inside).map (.literal text :: ·) ++ literalWays inside texts rest
  | _, _ => []

/-- The ways through patterns, the first of which is at a place. -/
def patternWays (inside : β → List Way) (place : Nat) : List (SegmentPattern × Trie β) → List Way
  | [] => []
  | (_, t) :: rest => (t.ways inside).map (.pattern place :: ·) ++ patternWays inside (place + 1) rest

end

variable {inside : β → List Way}

/-- The ways through the literals of a node. -/
def waysThrough (inside : β → List Way) (literals : TextIndex (Trie β)) : List Way :=
  literals.entries.flatMap fun e => (e.2.ways inside).map (.literal e.1 :: ·)

theorem literalWays_eq (texts : List String) (children : List (Trie β)) :
    literalWays inside texts children
      = (texts.zip children).flatMap fun e => (e.2.ways inside).map (.literal e.1 :: ·) := by
  induction children generalizing texts with
  | nil => cases texts <;> rfl
  | cons t rest ih =>
    cases texts with
    | nil => rfl
    | cons text texts => rw [literalWays, ih, List.zip_cons_cons, List.flatMap_cons]

theorem ways_node (leaf : β) (literals : TextIndex (Trie β)) (patterns : List (SegmentPattern × Trie β)) :
    (node leaf literals patterns).ways inside
      = [] :: (inside leaf ++ waysThrough inside literals ++ patternWays inside 0 patterns) := by
  rw [ways, literalWays_eq]
  rfl

/-- There are as many ways as nodes. -/
theorem length_ways {extra : β → Nat} {t : Trie β} (ht : t.Sorted)
    (h : ∀ row s, At t row s → (inside s.leaf).length = extra s.leaf) :
    (t.ways inside).length = t.nodeCount extra := by
  induction t using Trie.induction with
  | node leaf literals patterns ihliterals ihpatterns =>
    have hliterals : ∀ (texts : List String) (children : List (Trie β)), texts.length = children.length →
        (∀ e ∈ texts.zip children, (e.2.ways inside).length = e.2.nodeCount extra) →
        (literalWays inside texts children).length = literalCount extra children := by
      intro texts children hlength hcount
      induction children generalizing texts with
      | nil => cases texts <;> rfl
      | cons child rest ih =>
        obtain ⟨text, texts, rfl⟩ := List.exists_cons_of_length_eq_add_one hlength
        rw [List.zip_cons_cons] at hcount
        rw [literalWays, literalCount, List.length_append, List.length_map, hcount _ List.mem_cons_self,
          ih texts (Nat.succ.inj hlength) fun e he => hcount e (List.mem_cons_of_mem _ he)]
    have hpatterns : ∀ place, (patternWays inside place patterns).length
        = patternCount extra patterns := by
      have hcount := fun e he => ihpatterns e he (ht.pattern he) fun row s hs =>
        h (.pattern e.1 :: row) s (.pattern he hs)
      clear ihpatterns ht h
      induction patterns with
      | nil => exact fun _ => rfl
      | cons e rest ih =>
        intro place
        rw [patternWays, patternCount, List.length_append, List.length_map,
          hcount e List.mem_cons_self, ih fun e' he' => hcount e' (List.mem_cons_of_mem e he')]
    have hliterals := hliterals literals.keys.toList literals.values.toList ht.literals.aligned
      fun e he => ihliterals e he (ht.literal he) fun row s hs =>
        h (.literal e.1 :: row) s (.literal he hs)
    have hleaf : (inside leaf).length = extra leaf := h [] _ (.root _)
    rw [ways, nodeCount_node, List.length_cons, List.length_append, List.length_append, hleaf, hliterals,
      hpatterns]
    omega

theorem nil_mem_ways (t : Trie β) : [] ∈ t.ways inside := by
  obtain ⟨leaf, literals, patterns⟩ := t
  rw [ways_node]
  exact List.mem_cons_self

theorem mem_ways_inside {leaf : β} {literals : TextIndex (Trie β)}
    {patterns : List (SegmentPattern × Trie β)} {way : Way} (h : way ∈ inside leaf) :
    way ∈ (node leaf literals patterns).ways inside := by
  rw [ways_node]
  exact List.mem_cons_of_mem _ (List.mem_append_left _ (List.mem_append_left _ h))

theorem mem_ways_literal {leaf : β} {literals : TextIndex (Trie β)}
    {patterns : List (SegmentPattern × Trie β)} {text : String} {child : Trie β} {way : Way}
    (hchild : literals.find? text = some child) (h : way ∈ child.ways inside) :
    .literal text :: way ∈ (node leaf literals patterns).ways inside := by
  have hway : .literal text :: way ∈ waysThrough inside literals :=
    List.mem_flatMap.mpr ⟨_, TextIndex.mem_entries_of_find? hchild, List.mem_map_of_mem h⟩
  rw [ways_node]
  exact List.mem_cons_of_mem _ (List.mem_append_left _ (List.mem_append_right _ hway))

theorem mem_patternWays {p : SegmentPattern} {child : Trie β} {place first : Nat} {way : Way}
    {patterns : List (SegmentPattern × Trie β)} (hchild : ((p, child), place) ∈ patterns.zipIdx first)
    (h : way ∈ child.ways inside) : .pattern place :: way ∈ patternWays inside first patterns := by
  induction patterns generalizing first with
  | nil => cases hchild
  | cons e rest ih =>
    rw [patternWays, List.mem_append]
    rw [List.zipIdx_cons, List.mem_cons] at hchild
    rcases hchild with heq | hchild
    · cases heq
      exact Or.inl (List.mem_map_of_mem h)
    · exact Or.inr (ih hchild)

theorem mem_ways_pattern {leaf : β} {literals : TextIndex (Trie β)}
    {patterns : List (SegmentPattern × Trie β)} {p : SegmentPattern} {child : Trie β} {place : Nat}
    {way : Way} (hchild : ((p, child), place) ∈ patterns.zipIdx) (h : way ∈ child.ways inside) :
    .pattern place :: way ∈ (node leaf literals patterns).ways inside := by
  rw [ways_node]
  exact List.mem_cons_of_mem _ (List.mem_append_right _ (mem_patternWays hchild h))

theorem head?_of_mem_waysThrough {literals : TextIndex (Trie β)} {way : Way} (h : way ∈ waysThrough inside literals) :
    ∃ e ∈ literals.entries, way.head? = some (.literal e.1) := by
  obtain ⟨e, he, h⟩ := List.mem_flatMap.mp h
  obtain ⟨more, -, rfl⟩ := List.mem_map.mp h
  exact ⟨e, he, rfl⟩

theorem head?_of_mem_patternWays {patterns : List (SegmentPattern × Trie β)} {first : Nat} {way : Way}
    (h : way ∈ patternWays inside first patterns) :
    ∃ place, first ≤ place ∧ way.head? = some (.pattern place) := by
  induction patterns generalizing first with
  | nil => cases h
  | cons e rest ih =>
    rw [patternWays, List.mem_append] at h
    rcases h with h | h
    · obtain ⟨more, -, rfl⟩ := List.mem_map.mp h
      exact ⟨first, Nat.le_refl first, rfl⟩
    · obtain ⟨place, hplace, hhead⟩ := ih h
      exact ⟨place, by omega, hhead⟩

theorem waysThrough_nodup {literals : TextIndex (Trie β)} (hsorted : literals.Sorted)
    (h : ∀ e ∈ literals.entries, (e.2.ways inside).Nodup) : (waysThrough inside literals).Nodup := by
  refine List.nodup_flatMap.mpr ⟨fun e he => (h e he).map (List.cons_injective (a := Turn.literal e.1)), ?_⟩
  refine (List.pairwise_map.mp hsorted.nodup).imp fun hne way hway hway' => ?_
  obtain ⟨more, -, rfl⟩ := List.mem_map.mp hway
  obtain ⟨more', -, heq⟩ := List.mem_map.mp hway'
  exact hne (Turn.literal.inj (List.cons.inj heq).1).symm

theorem patternWays_nodup {patterns : List (SegmentPattern × Trie β)}
    (h : ∀ e ∈ patterns, (e.2.ways inside).Nodup) (first : Nat) :
    (patternWays inside first patterns).Nodup := by
  induction patterns generalizing first with
  | nil => exact List.nodup_nil
  | cons e rest ih =>
    have hchild := (h e List.mem_cons_self).map (List.cons_injective (a := Turn.pattern first))
    rw [patternWays]
    refine List.nodup_append.mpr
      ⟨hchild, ih (fun e' he' => h e' (List.mem_cons_of_mem e he')) (first + 1), ?_⟩
    intro way hway way' hway' heq
    obtain ⟨more, -, rfl⟩ := List.mem_map.mp hway
    obtain ⟨place, hplace, hhead⟩ := head?_of_mem_patternWays hway'
    rw [← heq] at hhead
    have hfirst : first = place := Turn.pattern.inj (Option.some.inj hhead)
    omega

/-- No two ways lead to one node, where the literals of each node are in order. -/
theorem ways_nodup {t : Trie β} (hliterals : t.Sorted)
    (hinside : ∀ row s, At t row s → (inside s.leaf).Nodup ∧
      ∀ way ∈ inside s.leaf, way.head? = some .hosts) : (t.ways inside).Nodup := by
  induction t using Trie.induction with
  | node leaf literals patterns ihliterals ihpatterns =>
    obtain ⟨hleaf, hhead⟩ := hinside [] _ (.root _)
    have hliteralWays : (waysThrough inside literals).Nodup :=
      waysThrough_nodup (hliterals [] _ (.root _)) fun e he =>
        ihliterals e he (fun row s hs => hliterals (.literal e.1 :: row) s (.literal he hs))
          fun row s hs => hinside (.literal e.1 :: row) s (.literal he hs)
    have hpatternWays : (patternWays inside 0 patterns).Nodup :=
      patternWays_nodup (fun e he =>
        ihpatterns e he (fun row s hs => hliterals (.pattern e.1 :: row) s (.pattern he hs))
          fun row s hs => hinside (.pattern e.1 :: row) s (.pattern he hs)) 0
    -- A way tells by its first turn which of the lists it is in.
    have hchildren : ∀ way ∈ waysThrough inside literals ++ patternWays inside 0 patterns,
        ∃ turn, way.head? = some turn ∧ turn ≠ .hosts := by
      intro way hway
      rcases List.mem_append.mp hway with hway | hway
      · obtain ⟨e, -, h⟩ := head?_of_mem_waysThrough hway
        exact ⟨_, h, by simp⟩
      · obtain ⟨place, -, h⟩ := head?_of_mem_patternWays hway
        exact ⟨_, h, by simp⟩
    rw [ways_node, List.append_assoc]
    refine List.nodup_cons.mpr ⟨fun hnil => ?_, List.nodup_append.mpr ⟨hleaf,
      List.nodup_append.mpr ⟨hliteralWays, hpatternWays, ?_⟩, ?_⟩⟩
    · rcases List.mem_append.mp hnil with hnil | hnil
      · cases hhead [] hnil
      · obtain ⟨turn, h, -⟩ := hchildren [] hnil
        cases h
    · intro way hway way' hway' heq
      subst heq
      obtain ⟨e, -, h⟩ := head?_of_mem_waysThrough hway
      obtain ⟨place, -, h'⟩ := head?_of_mem_patternWays hway'
      cases h.symm.trans h'
    · intro way hway way' hway' heq
      subst heq
      obtain ⟨turn, h, hne⟩ := hchildren way hway'
      exact hne (Option.some.inj (h.symm.trans (hhead way hway)))

end Trie

/-! ## Walks with notes -/

/-- What a visitor has seen, and the ways to the nodes that were tried before. -/
structure Noted (σ : Type) where
  seen : σ
  tried : List Way := []

/-- The visitor of a walk without notes, on one with notes. -/
def Visitor.noting (v : Visitor ε σ) : Visitor ε (Noted σ) where
  visit found captures := fun s =>
    match v.visit found captures s.seen with
    | .ok _ seen => .ok () { s with seen }
    | .error _ seen => .error () { s with seen }
  hear e s := { s with seen := v.hear e s.seen }

namespace Walk

def withoutNotes (w : Walk (Noted σ)) : Walk σ := { w with seen := w.seen.seen }

/-- What a walk leaves, whether or not it broke off. -/
def ended : EStateM.Result Unit (Walk σ) Unit → Walk σ
  | .ok _ w => w
  | .error _ w => w

def resultWithoutNotes :
    EStateM.Result Unit (Walk (Noted σ)) Unit → EStateM.Result Unit (Walk σ) Unit
  | .ok _ w => .ok () w.withoutNotes
  | .error _ w => .error () w.withoutNotes

/-- A step to a node, which is noted unless the walk has no steps left. -/
def stepTo (way : Way) : WalkM (Noted σ) Unit := do
  step
  modify fun w => { w with seen := { w.seen with tried := w.seen.tried ++ [way] } }

end Walk

/-- Follows segments as `descend` does, from a node to which a way leads, and notes each node that is
tried. -/
def Trie.descendNoting (v : Visitor ε (Noted σ)) (arrive : Way → β → WalkM (Noted σ) Unit) :
    Way → List String → Trie β → WalkM (Noted σ) Unit
  | way, [], node leaf _ _ => arrive way leaf
  | way, segment :: rest, node _ literals patterns => do
    (literals.find? segment).forM fun child => do
      Walk.stepTo (way ++ [.literal segment])
      descendNoting v arrive (way ++ [.literal segment]) rest child
    patterns.zipIdx.forM fun ((p, child), place) => do
      Walk.stepTo (way ++ [.pattern place])
      Walk.capturing v p segment (descendNoting v arrive (way ++ [.pattern place]) rest child)

/-- Between two states a walk has noted different ways of a set, one for each step it has spent. -/
structure Spent (S : Way → Prop) (w w' : Walk (Noted σ)) (noted : List Way) : Prop where
  tried : w'.seen.tried = w.seen.tried ++ noted
  steps : w'.stepsLeft + noted.length = w.stepsLeft
  nodup : noted.Nodup
  ways : ∀ way ∈ noted, S way

/-- A walk that notes ways of a set is another walk without its notes. -/
structure Notes (S : Way → Prop) (m : WalkM (Noted σ) Unit) (m' : WalkM σ Unit) : Prop where
  same : ∀ w, m' w.withoutNotes = Walk.resultWithoutNotes (m w)
  spent : ∀ w, ∃ noted, Spent S w (Walk.ended (m w)) noted

section

variable {v : Visitor ε σ} {S T : Way → Prop}

theorem Spent.none {w w' : Walk (Noted σ)} (htried : w'.seen.tried = w.seen.tried)
    (hsteps : w'.stepsLeft = w.stepsLeft) : Spent S w w' [] :=
  ⟨by rw [htried, List.append_nil], hsteps, List.nodup_nil, fun _ h => nomatch h⟩

theorem Spent.mono {w w' : Walk (Noted σ)} {noted : List Way} (h : Spent S w w' noted)
    (hST : ∀ way, S way → T way) : Spent T w w' noted :=
  ⟨h.tried, h.steps, h.nodup, fun way hway => hST way (h.ways way hway)⟩

theorem Spent.trans {w w₁ w₂ : Walk (Noted σ)} {noted more : List Way} (h : Spent S w w₁ noted)
    (h' : Spent T w₁ w₂ more) (hdisjoint : ∀ way, S way → ¬ T way) :
    Spent (fun way => S way ∨ T way) w w₂ (noted ++ more) := by
  refine ⟨?_, ?_, ?_, fun way hway => ?_⟩
  · rw [h'.tried, h.tried, List.append_assoc]
  · have hfirst := h.steps
    have hsecond := h'.steps
    rw [List.length_append]
    omega
  · refine List.nodup_append.mpr ⟨h.nodup, h'.nodup, fun way hway way' hway' heq => ?_⟩
    exact hdisjoint way (h.ways way hway) (heq ▸ h'.ways way' hway')
  · exact (List.mem_append.mp hway).imp (h.ways way) (h'.ways way)

theorem Notes.mono {m : WalkM (Noted σ) Unit} {m' : WalkM σ Unit} (h : Notes S m m')
    (hST : ∀ way, S way → T way) : Notes T m m' :=
  ⟨h.same, fun w => (h.spent w).imp fun _ hspent => hspent.mono hST⟩

theorem notes_pure : Notes S (pure () : WalkM (Noted σ) Unit) (pure ()) :=
  ⟨fun _ => rfl, fun _ => ⟨[], .none rfl rfl⟩⟩

theorem notes_seq {m k : WalkM (Noted σ) Unit} {m' k' : WalkM σ Unit} (h : Notes S m m')
    (h' : Notes T k k') (hdisjoint : ∀ way, S way → ¬ T way) :
    Notes (fun way => S way ∨ T way) (do m; k) (do m'; k') := by
  constructor
  · intro w
    have hw := h.same w
    show EStateM.bind m' (fun _ => k') w.withoutNotes
      = Walk.resultWithoutNotes (EStateM.bind m (fun _ => k) w)
    rw [EStateM.bind, EStateM.bind, hw]
    cases m w with
    | ok _ w₁ => exact h'.same w₁
    | error _ w₁ => rfl
  · intro w
    obtain ⟨noted, hspent⟩ := h.spent w
    show ∃ noted, Spent _ w (Walk.ended (EStateM.bind m (fun _ => k) w)) noted
    rw [EStateM.bind]
    cases hm : m w with
    | ok _ w₁ =>
      rw [hm] at hspent
      obtain ⟨more, hspent'⟩ := h'.spent w₁
      exact ⟨noted ++ more, hspent.trans hspent' hdisjoint⟩
    | error _ w₁ =>
      rw [hm] at hspent
      exact ⟨noted, hspent.mono fun _ => Or.inl⟩

theorem notes_forM {γ : Type} {f : γ → WalkM (Noted σ) Unit} {f' : γ → WalkM σ Unit}
    {R : γ → Way → Prop} {l : List γ} (h : ∀ x ∈ l, Notes (R x) (f x) (f' x))
    (hdisjoint : l.Pairwise fun x y => ∀ way, R x way → ¬ R y way) :
    Notes (fun way => ∃ x ∈ l, R x way) (l.forM f) (l.forM f') := by
  induction l with
  | nil => exact notes_pure
  | cons x l ih =>
    obtain ⟨hx, hl⟩ := List.pairwise_cons.mp hdisjoint
    have hrest := ih (fun y hy => h y (List.mem_cons_of_mem x hy)) hl
    refine (notes_seq (h x List.mem_cons_self) hrest fun way hway hrest => ?_).mono fun way hway => ?_
    · obtain ⟨y, hy, hway'⟩ := hrest
      exact hx y hy way hway hway'
    · rw [List.exists_mem_cons_iff]
      exact hway

theorem forM_zipIdx {γ : Type} (f : γ → WalkM σ Unit) (l : List γ) (first : Nat) :
    (l.zipIdx first).forM (fun x => f x.1) = l.forM f := by
  induction l generalizing first with
  | nil => rfl
  | cons x l ih =>
    show (do f x; (l.zipIdx (first + 1)).forM fun x => f x.1) = do f x; l.forM f
    rw [ih]

theorem notes_step (way : Way) :
    Notes (· = way) (Walk.stepTo way : WalkM (Noted σ) Unit) Walk.step := by
  constructor
  · intro w
    obtain ⟨⟨stepsLeft, exhausted, seen⟩, captures⟩ := w
    cases stepsLeft <;> rfl
  · intro w
    obtain ⟨⟨stepsLeft, exhausted, seen⟩, captures⟩ := w
    cases stepsLeft with
    | zero => exact ⟨[], .none rfl rfl⟩
    | succ n => exact ⟨[way], rfl, rfl, List.nodup_singleton way, fun _ => List.mem_singleton.mp⟩

theorem notes_arrive (found : ε) : Notes S (Walk.arrive v.noting found) (Walk.arrive v found) := by
  have hvisit : ∀ w : Walk (Noted σ), v.noting.visit found w.captures w.seen
      = match v.visit found w.captures w.seen.seen with
        | .ok _ seen => .ok () { w.seen with seen }
        | .error _ seen => .error () { w.seen with seen } := fun _ => rfl
  constructor
  · intro w
    have hcaptures : w.withoutNotes.captures = w.captures := rfl
    have hseen : w.withoutNotes.seen = w.seen.seen := rfl
    rw [Walk.arrive, Walk.arrive, hvisit, hcaptures, hseen]
    cases v.visit found w.captures w.seen.seen <;> rfl
  · intro w
    rw [Walk.arrive, hvisit]
    cases v.visit found w.captures w.seen.seen with
    | ok _ seen => exact ⟨[], .none rfl rfl⟩
    | error _ seen => exact ⟨[], .none rfl rfl⟩

/-- What a visitor hears changes no notes. -/
theorem foldl_hear_noting (asked : List Evaluation) (seen : Noted σ) :
    asked.foldl (fun seen e => v.noting.hear e seen) seen
      = { seen with seen := asked.foldl (fun seen e => v.hear e seen) seen.seen } := by
  induction asked generalizing seen with
  | nil => rfl
  | cons e asked ih => exact ih _

theorem notes_capturing (p : SegmentPattern) (segment : String) {next : WalkM (Noted σ) Unit}
    {next' : WalkM σ Unit} (h : Notes S next next') :
    Notes S (Walk.capturing v.noting p segment next) (Walk.capturing v p segment next') := by
  constructor
  · intro w
    have hcaptures : w.withoutNotes.captures = w.captures := rfl
    have hseen : w.withoutNotes.seen = w.seen.seen := rfl
    rw [capturing_run, capturing_run, foldl_hear_noting, hcaptures, hseen]
    cases p.capture? segment with
    | none => rfl
    | some more =>
      have hnext := h.same { w with
        captures := w.captures ++ more
        seen := { w.seen with
          seen := (p.evaluate segment).foldl (fun seen e => v.hear e seen) w.seen.seen } }
      dsimp only [Walk.withoutNotes] at hnext ⊢
      rw [hnext]
      cases next _ <;> rfl
  · intro w
    rw [capturing_run, foldl_hear_noting]
    cases p.capture? segment with
    | none => exact ⟨[], .none rfl rfl⟩
    | some more =>
      obtain ⟨noted, hspent⟩ := h.spent { w with
        captures := w.captures ++ more
        seen := { w.seen with
          seen := (p.evaluate segment).foldl (fun seen e => v.hear e seen) w.seen.seen } }
      refine ⟨noted, ?_⟩
      dsimp only
      cases hrun : next _ with
      | ok _ w' =>
        rw [hrun] at hspent
        exact ⟨hspent.tried, hspent.steps, hspent.nodup, hspent.ways⟩
      | error _ w' =>
        rw [hrun] at hspent
        exact ⟨hspent.tried, hspent.steps, hspent.nodup, hspent.ways⟩

/-! ## The nodes that are tried -/

/-- The ways beyond a node, to nodes that are no roots. -/
def Beyond (start : Way) (ways : List Way) (way : Way) : Prop :=
  ∃ more ∈ ways, ¬ Way.ToRoot more ∧ way = start ++ more

/-- Those that begin with one turn. -/
def BeyondBy (start : Way) (ways : List Way) (turn : Turn) (way : Way) : Prop :=
  Beyond start ways way ∧ way[start.length]? = some turn

theorem BeyondBy.apart {start way : Way} {ways : List Way} {turn turn' : Turn} (hne : turn ≠ turn')
    (h : BeyondBy start ways turn way) : ¬ BeyondBy start ways turn' way := by
  intro h'
  have heq := h.2.symm.trans h'.2
  exact hne (Option.some.inj heq)

/-- A child is tried, and then what is beyond it. -/
theorem notes_child {start : Way} (turn : Turn) {ways ways' : List Way} (hturn : turn ≠ .hosts)
    (hways : ∀ more ∈ ways, turn :: more ∈ ways') (hroot : [] ∈ ways)
    {m : WalkM (Noted σ) Unit} {m' : WalkM σ Unit} (h : Notes (Beyond (start ++ [turn]) ways) m m') :
    Notes (BeyondBy start ways' turn) (do Walk.stepTo (start ++ [turn]); m) (do Walk.step; m') := by
  refine (notes_seq (notes_step _) h fun way hway hbeyond => ?_).mono fun way hway => ?_
  · obtain ⟨more, -, hmore, heq⟩ := hbeyond
    rw [hway] at heq
    have hnil : more = [] := by simpa using heq
    exact hmore (Or.inl hnil)
  · rcases hway with rfl | ⟨more, hmore, hroot, rfl⟩
    · refine ⟨⟨[turn], hways [] hroot, Way.not_toRoot_singleton hturn, rfl⟩, ?_⟩
      simp
    · refine ⟨⟨turn :: more, hways more hmore, Way.not_toRoot_cons turn hroot, ?_⟩, ?_⟩
      · rw [List.append_assoc, List.singleton_append]
      · simp

/-- A walk notes ways to nodes of the trie that are no roots. -/
theorem descend_notes {inside : β → List Way} {arrive : Way → β → WalkM (Noted σ) Unit}
    {arrive' : β → WalkM σ Unit}
    (h : ∀ start leaf, Notes (Beyond start (inside leaf)) (arrive start leaf) (arrive' leaf))
    (start : Way) (segments : List String) (t : Trie β) :
    Notes (Beyond start (t.ways inside)) (t.descendNoting v.noting arrive start segments)
      (t.descend v arrive' segments) := by
  induction segments generalizing start t with
  | nil =>
    obtain ⟨leaf, literals, patterns⟩ := t
    refine (h start leaf).mono fun way hway => ?_
    obtain ⟨more, hmore, hroot, rfl⟩ := hway
    exact ⟨more, Trie.mem_ways_inside hmore, hroot, rfl⟩
  | cons segment rest ih =>
    obtain ⟨leaf, literals, patterns⟩ := t
    have hliteral : Notes (BeyondBy start ((Trie.node leaf literals patterns).ways inside)
          (.literal segment))
        ((literals.find? segment).forM fun child => do
          Walk.stepTo (start ++ [.literal segment])
          child.descendNoting v.noting arrive (start ++ [.literal segment]) rest)
        ((literals.find? segment).forM fun child => do
          Walk.step
          child.descend v arrive' rest) := by
      cases hchild : literals.find? segment with
      | none => exact notes_pure
      | some child =>
        refine notes_child (.literal segment) ?_ (fun _ => Trie.mem_ways_literal hchild)
          child.nil_mem_ways (ih _ child)
        exact nofun
    have hpattern : ∀ e ∈ patterns.zipIdx,
        Notes (BeyondBy start ((Trie.node leaf literals patterns).ways inside) (.pattern e.2))
          (do
            Walk.stepTo (start ++ [.pattern e.2])
            Walk.capturing v.noting e.1.1 segment
              (e.1.2.descendNoting v.noting arrive (start ++ [.pattern e.2]) rest))
          (do
            Walk.step
            Walk.capturing v e.1.1 segment (e.1.2.descend v arrive' rest)) := by
      intro e he
      refine notes_child (.pattern e.2) ?_ (fun _ => Trie.mem_ways_pattern he) e.1.2.nil_mem_ways
        (notes_capturing _ _ (ih _ e.1.2))
      exact nofun
    have hplaces : (patterns.zipIdx.map Prod.snd).Nodup := by
      rw [List.zipIdx_map_snd]
      exact List.nodup_range'
    have hpatterns := notes_forM hpattern ((List.pairwise_map.mp hplaces).imp fun hne way hway =>
      hway.apart (fun heq => hne (Turn.pattern.inj heq)))
    rw [forM_zipIdx (fun e : SegmentPattern × Trie β => do
      Walk.step
      Walk.capturing v e.1 segment (e.2.descend v arrive' rest))] at hpatterns
    refine (notes_seq hliteral hpatterns fun way hway hway' => ?_).mono fun way hway => ?_
    · obtain ⟨e, -, hway'⟩ := hway'
      refine hway.apart ?_ hway'
      exact nofun
    · rcases hway with hway | ⟨e, -, hway⟩
      · exact hway.1
      · exact hway.1

end
end UriRouting

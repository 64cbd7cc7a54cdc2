import Mathlib.Algebra.BigOperators.Group.Finset.Basic
import Mathlib.Algebra.GroupWithZero.Nat
import Mathlib.Data.List.Infix
import UriRouting.Proofs.Trie.Reach
/-!
The number of nodes of a trie.

A trie that was built by edits has one node for each start of an edited row, and the root: rows share
the nodes of the keys that they begin with in common, and nothing else. How often and in what order the
rows were edited does not show in the number.
-/

namespace UriRouting

variable {β : Type}

namespace Trie

theorem induction {motive : Trie β → Prop}
    (node : ∀ leaf literals patterns, (∀ e ∈ literals.entries, motive e.2) → (∀ e ∈ patterns, motive e.2) →
      motive (.node leaf literals patterns)) (t : Trie β) : motive t :=
  Trie.rec (motive_1 := motive) (motive_2 := fun literals => ∀ child ∈ literals.values.toList, motive child)
    (motive_3 := fun patterns => ∀ e ∈ patterns, motive e.2)
    (motive_4 := fun children => ∀ child ∈ children.toList, motive child)
    (motive_5 := fun e => motive e.2) (motive_6 := fun children => ∀ child ∈ children, motive child)
    (fun leaf literals patterns hliterals hpatterns =>
      node leaf literals patterns (fun e he => hliterals e.2 (List.of_mem_zip he).2) hpatterns)
    (fun _ _ h => h) (fun _ he => nomatch he)
    (fun _ _ hhead htail => List.forall_mem_cons.mpr ⟨hhead, htail⟩) (fun _ h => h) (fun _ _ h => h)
    (fun _ he => nomatch he) (fun _ _ hhead htail => List.forall_mem_cons.mpr ⟨hhead, htail⟩) t

/-! ## Nodes -/

def behind (k : Key) (n : List Key × β) : List Key × β := (k :: n.1, n.2)

mutual

/-- The nodes of a trie: the rows of keys that lead to them, with their values. -/
def nodes : Trie β → List (List Key × β)
  | node leaf ⟨⟨texts⟩, ⟨children⟩⟩ patterns =>
    ([], leaf) :: (literalNodes texts children ++ patternNodes patterns)

def literalNodes : List String → List (Trie β) → List (List Key × β)
  | text :: texts, t :: rest => t.nodes.map (behind (.literal text)) ++ literalNodes texts rest
  | _, _ => []

def patternNodes : List (SegmentPattern × Trie β) → List (List Key × β)
  | [] => []
  | (p, t) :: rest => t.nodes.map (behind (.pattern p)) ++ patternNodes rest

end

theorem literalNodes_eq (texts : List String) (children : List (Trie β)) :
    literalNodes texts children
      = (texts.zip children).flatMap fun e => e.2.nodes.map (behind (.literal e.1)) := by
  induction children generalizing texts with
  | nil => cases texts <;> rfl
  | cons t rest ih =>
    cases texts with
    | nil => rfl
    | cons text texts => rw [literalNodes, ih, List.zip_cons_cons, List.flatMap_cons]

theorem nodes_node (leaf : β) (literals : TextIndex (Trie β))
    (patterns : List (SegmentPattern × Trie β)) :
    (node leaf literals patterns).nodes = ([], leaf) ::
      (literals.entries.flatMap (fun e => e.2.nodes.map (behind (.literal e.1))) ++
        patterns.flatMap fun e => e.2.nodes.map (behind (.pattern e.1))) := by
  have hpatterns : patternNodes patterns
      = patterns.flatMap fun e => e.2.nodes.map (behind (.pattern e.1)) := by
    induction patterns with
    | nil => rfl
    | cons e rest ih => rw [patternNodes, ih, List.flatMap_cons]
  rw [nodes, literalNodes_eq, hpatterns]
  rfl

theorem mem_nodes {t : Trie β} {row : List Key} {b : β} :
    (row, b) ∈ t.nodes ↔ ∃ s, At t row s ∧ s.leaf = b := by
  induction t using Trie.induction generalizing row b with
  | node leaf literals patterns ihliterals ihpatterns =>
    rw [nodes_node, List.mem_cons, List.mem_append, List.mem_flatMap, List.mem_flatMap]
    constructor
    · intro h
      rcases h with h | ⟨e, he, h⟩ | ⟨e, he, h⟩
      · cases h
        exact ⟨_, .root _, rfl⟩
      · obtain ⟨n, hn, h⟩ := List.mem_map.mp h
        cases h
        obtain ⟨s, hs, hleaf⟩ := (ihliterals e he).mp hn
        exact ⟨s, .literal he hs, hleaf⟩
      · obtain ⟨n, hn, h⟩ := List.mem_map.mp h
        cases h
        obtain ⟨s, hs, hleaf⟩ := (ihpatterns e he).mp hn
        exact ⟨s, .pattern he hs, hleaf⟩
    · intro h
      obtain ⟨s, hs, rfl⟩ := h
      cases hs with
      | root => exact Or.inl rfl
      | literal edge rest =>
        have hnode := (ihliterals _ edge).mpr ⟨s, rest, rfl⟩
        exact Or.inr (Or.inl ⟨_, edge, List.mem_map.mpr ⟨_, hnode, rfl⟩⟩)
      | pattern edge rest =>
        have hnode := (ihpatterns _ edge).mpr ⟨s, rest, rfl⟩
        exact Or.inr (Or.inr ⟨_, edge, List.mem_map.mpr ⟨_, hnode, rfl⟩⟩)

theorem nodeCount_node (extra : β → Nat) (leaf : β) (literals : TextIndex (Trie β))
    (patterns : List (SegmentPattern × Trie β)) :
    (node leaf literals patterns).nodeCount extra
      = 1 + extra leaf + literalCount extra literals.values.toList + patternCount extra patterns := by
  rw [nodeCount]

theorem nodeCount_eq (extra : β → Nat) {t : Trie β} (h : t.Sorted) :
    t.nodeCount extra = (t.nodes.map fun n => 1 + extra n.2).sum := by
  have hbehind : ∀ (k : Key) (ns : List (List Key × β)),
      ((ns.map (behind k)).map fun n => 1 + extra n.2) = ns.map fun n => 1 + extra n.2 := by
    intro k ns
    rw [List.map_map]
    rfl
  induction t using Trie.induction with
  | node leaf literals patterns ihliterals ihpatterns =>
    have hliterals : ∀ (texts : List String) (children : List (Trie β)), texts.length = children.length →
        (∀ e ∈ texts.zip children, e.2.nodeCount extra = (e.2.nodes.map fun n => 1 + extra n.2).sum) →
        literalCount extra children = (((texts.zip children).flatMap fun e =>
          e.2.nodes.map (behind (.literal e.1))).map fun n => 1 + extra n.2).sum := by
      intro texts children hlength hcount
      induction children generalizing texts with
      | nil =>
        rw [List.zip_nil_right]
        rfl
      | cons child rest ih =>
        obtain ⟨text, texts, rfl⟩ := List.exists_cons_of_length_eq_add_one hlength
        rw [List.zip_cons_cons] at hcount ⊢
        rw [literalCount, List.flatMap_cons, List.map_append, List.sum_append_nat, hbehind,
          hcount _ List.mem_cons_self,
          ih texts (Nat.succ.inj hlength) fun e he => hcount e (List.mem_cons_of_mem _ he)]
    have hpatterns : patternCount extra patterns = ((patterns.flatMap fun e =>
        e.2.nodes.map (behind (.pattern e.1))).map fun n => 1 + extra n.2).sum := by
      have hcount := fun e he => ihpatterns e he (h.pattern he)
      clear ihpatterns h
      induction patterns with
      | nil => rfl
      | cons e rest ih =>
        rw [patternCount, List.flatMap_cons, List.map_append, List.sum_append_nat, hbehind,
          hcount e List.mem_cons_self, ih fun e' he' => hcount e' (List.mem_cons_of_mem e he')]
    rw [nodes_node, List.map_cons, List.sum_cons, List.map_append, List.sum_append_nat, ← hpatterns, nodeCount_node,
      hliterals literals.keys.toList literals.values.toList h.literals.aligned
        fun e he => ihliterals e he (h.literal he), TextIndex.entries, Nat.add_assoc (1 + extra leaf)]

/-- Where no node has two children with one key, no two nodes have one row. -/
theorem nodes_nodup {t : Trie β}
    (h : ∀ row s, At t row s →
      (s.literals.entries.map Prod.fst).Nodup ∧ (s.patterns.map Prod.fst).Nodup) :
    (t.nodes.map Prod.fst).Nodup := by
  have hbehind : ∀ {k : Key} {ns : List (List Key × β)}, (ns.map Prod.fst).Nodup →
      ((ns.map (behind k)).map Prod.fst).Nodup := by
    intro k ns hns
    rw [List.map_map, show Prod.fst ∘ behind k = (k :: ·) ∘ (Prod.fst : List Key × β → List Key) from rfl,
      ← List.map_map]
    exact hns.map (List.cons_injective)
  have hrow : ∀ {k : Key} {ns : List (List Key × β)} {row : List Key},
      row ∈ (ns.map (behind k)).map Prod.fst → row.head? = some k := by
    intro k ns row hrow
    obtain ⟨n, hn, rfl⟩ := List.mem_map.mp hrow
    obtain ⟨n', -, rfl⟩ := List.mem_map.mp hn
    rfl
  induction t using Trie.induction with
  | node leaf literals patterns ihliterals ihpatterns =>
    obtain ⟨hliterals, hpatterns⟩ := h [] _ (.root _)
    rw [nodes_node, List.map_cons, List.map_append, List.map_flatMap, List.map_flatMap]
    refine List.nodup_cons.mpr ⟨fun hnil => ?_, List.nodup_append.mpr ⟨?_, ?_, ?_⟩⟩
    · rcases List.mem_append.mp hnil with hnil | hnil
      · obtain ⟨e, -, hnil⟩ := List.mem_flatMap.mp hnil
        cases hrow hnil
      · obtain ⟨e, -, hnil⟩ := List.mem_flatMap.mp hnil
        cases hrow hnil
    · refine List.nodup_flatMap.mpr ⟨fun e he => hbehind (ihliterals e he fun row s hs =>
        h (.literal e.1 :: row) s (.literal he hs)), ?_⟩
      refine (List.pairwise_map.mp hliterals).imp fun hne row hmem hmem' => hne ?_
      exact Key.literal.inj (Option.some.inj ((hrow hmem).symm.trans (hrow hmem')))
    · refine List.nodup_flatMap.mpr ⟨fun e he => hbehind (ihpatterns e he fun row s hs =>
        h (.pattern e.1 :: row) s (.pattern he hs)), ?_⟩
      refine (List.pairwise_map.mp hpatterns).imp fun hne row hmem hmem' => hne ?_
      exact Key.pattern.inj (Option.some.inj ((hrow hmem).symm.trans (hrow hmem')))
    · intro row hmem row' hmem' heq
      subst heq
      obtain ⟨e, -, hmem⟩ := List.mem_flatMap.mp hmem
      obtain ⟨e', -, hmem'⟩ := List.mem_flatMap.mp hmem'
      cases (hrow hmem).symm.trans (hrow hmem')

end Trie

/-! ## Nodes of a trie built by edits -/

def belowRow : List Key → List (Edit β) → List (Edit β)
  | [], edits => edits
  | k :: row, edits => belowRow row (below k edits)

theorem valueAt_eq_rootValue (fresh : β) (row : List Key) (edits : List (Edit β)) :
    valueAt fresh row edits = rootValue fresh (belowRow row edits) := by
  induction row generalizing edits with
  | nil => rfl
  | cons k row ih => exact ih (below k edits)

section

variable {S : Key → Prop}

theorem Over.belowRow {edits : List (Edit β)} (h : Over S edits) (row : List Key) :
    Over S (belowRow row edits) := by
  induction row generalizing edits with
  | nil => exact h
  | cons k row ih => exact ih (h.below k)

theorem LiteralsBuilt.mem_iff {fresh : β} {edits : List (Edit β)} {literals : TextIndex (Trie β)}
    (h : LiteralsBuilt fresh edits literals) {text : String} {child : Trie β} :
    (text, child) ∈ literals.entries ↔
      below (.literal text) edits ≠ [] ∧ child = Trie.build fresh (below (.literal text) edits) := by
  have hfind : (text, child) ∈ literals.entries ↔ literals.find? text = some child :=
    h.1.mem_entries_iff
  rw [hfind, h.2]
  split
  · next hnil => simp [hnil]
  · next hne => simp [hne, eq_comm]

/-- The nodes are at the starts of the edited rows, and each is built by the edits that go on
there. -/
theorem at_build (fresh : β) (hS : Sharp S) {edits : List (Edit β)} (hE : Over S edits)
    {row : List Key} {s : Trie β} : Trie.At (Trie.build fresh edits) row s ↔
      Reached row edits ∧ s = Trie.build fresh (belowRow row edits) := by
  induction row generalizing edits with
  | nil =>
    constructor
    · intro h
      cases h
      exact ⟨Or.inl rfl, rfl⟩
    · intro h
      rw [h.2]
      exact .root _
  | cons k row ih =>
    obtain ⟨literals, hliterals, hnode⟩ := build_spec fresh hS hE
    have hpatterns := (firstPatterns_spec hS hE).2
    -- A first key has a child if some edit goes on behind it, and the child is built by those.
    have hstep : Trie.At (Trie.build fresh edits) (k :: row) s ↔ S k ∧ below k edits ≠ [] ∧
        Trie.At (Trie.build fresh (below k edits)) row s := by
      rw [hnode]
      constructor
      · intro h
        cases h with
        | literal edge rest =>
          obtain ⟨hne, rfl⟩ := hliterals.mem_iff.mp edge
          exact ⟨literal_of_below_ne_nil hE hne, hne, rest⟩
        | @pattern _ child _ p _ edge rest =>
          obtain ⟨p', hp', heq⟩ := List.mem_map.mp edge
          cases heq
          obtain ⟨e, he, tail, htail⟩ := (hpatterns p).mp hp'
          have hk : S (.pattern p) := hE.head he htail
          refine ⟨hk, List.ne_nil_of_mem (a := ⟨tail, e.update⟩) ((mem_below hS hk hE).mpr ?_), rest⟩
          rw [← htail]
          exact he
      · intro h
        obtain ⟨hk, hne, h⟩ := h
        cases k with
        | literal text => exact .literal (hliterals.mem_iff.mpr ⟨hne, rfl⟩) h
        | pattern p =>
          obtain ⟨e, he⟩ := List.exists_mem_of_ne_nil _ hne
          refine .pattern (List.mem_map.mpr ⟨p, (hpatterns p).mpr ?_, rfl⟩) h
          exact ⟨_, (mem_below hS hk hE).mp he, e.row, rfl⟩
    rw [hstep]
    constructor
    · intro h
      obtain ⟨hk, hne, h⟩ := h
      obtain ⟨hreached, hs⟩ := (ih (hE.below k)).mp h
      exact ⟨(reached_cons_iff hS hk hE).mpr ⟨hne, hreached⟩, hs⟩
    · intro h
      obtain ⟨hreached, hs⟩ := h
      have hk := hreached.keys hE k List.mem_cons_self
      obtain ⟨hne, hreached⟩ := (reached_cons_iff hS hk hE).mp hreached
      exact ⟨hk, hne, (ih (hE.below k)).mpr ⟨hreached, hs⟩⟩

theorem build_nodes_nodup (fresh : β) (hS : Sharp S) {edits : List (Edit β)} (hE : Over S edits) :
    ((Trie.build fresh edits).nodes.map Prod.fst).Nodup := by
  refine Trie.nodes_nodup fun row s hs => ?_
  obtain ⟨-, rfl⟩ := (at_build fresh hS hE).mp hs
  obtain ⟨literals, hliterals, hnode⟩ := build_spec fresh hS (hE.belowRow row)
  rw [hnode]
  refine ⟨hliterals.1.nodup, ?_⟩
  show (((firstPatterns _).map fun p => (p, Trie.build fresh _)).map Prod.fst).Nodup
  rw [List.map_map]
  show ((firstPatterns (belowRow row edits)).map id).Nodup
  rw [List.map_id]
  exact (firstPatterns_spec hS (hE.belowRow row)).1

/-! ## Starts of rows -/

open Classical in
/-- The rows that some row begins with, without the empty one. -/
noncomputable def starts (rows : List (List Key)) : Finset (List Key) :=
  ((rows.flatMap List.inits).toFinset).erase []

theorem mem_starts {rows : List (List Key)} {start : List Key} :
    start ∈ starts rows ↔ start ≠ [] ∧ ∃ row ∈ rows, start <+: row := by
  simp only [starts, Finset.mem_erase, List.mem_toFinset, List.mem_flatMap, List.mem_inits]

theorem reached_iff_mem_starts [DecidableEq (List Key)] {row : List Key} {edits : List (Edit β)} :
    Reached row edits ↔ row ∈ insert [] (starts (rowsOf edits)) := by
  rw [Finset.mem_insert, mem_starts]
  unfold Reached rowsOf
  by_cases h : row = []
  · simp [h]
  · simp [h]

/-- A trie that was built by edits has the root and one node for each start of a row. -/
theorem nodeCount_build [DecidableEq (List Key)] (fresh : β) (extra : β → Nat) (hS : Sharp S)
    {edits : List (Edit β)} (hE : Over S edits) :
    (Trie.build fresh edits).nodeCount extra = 1 + (starts (rowsOf edits)).card +
      ∑ row ∈ insert [] (starts (rowsOf edits)), extra (valueAt fresh row edits) := by
  have hvalue : ∀ n ∈ (Trie.build fresh edits).nodes, n.2 = valueAt fresh n.1 edits := by
    intro n hn
    obtain ⟨s, hs, hleaf⟩ := Trie.mem_nodes.mp (show (n.1, n.2) ∈ _ from hn)
    obtain ⟨-, rfl⟩ := (at_build fresh hS hE).mp hs
    obtain ⟨literals, -, hnode⟩ := build_spec fresh hS (hE.belowRow n.1)
    rw [← hleaf, hnode, valueAt_eq_rootValue]
    rfl
  have hrows : ((Trie.build fresh edits).nodes.map Prod.fst).toFinset
      = insert [] (starts (rowsOf edits)) := by
    ext row
    rw [List.mem_toFinset, ← reached_iff_mem_starts, List.mem_map]
    constructor
    · intro h
      obtain ⟨n, hn, rfl⟩ := h
      obtain ⟨s, hs, -⟩ := Trie.mem_nodes.mp (show (n.1, n.2) ∈ _ from hn)
      exact ((at_build fresh hS hE).mp hs).1
    · intro h
      exact ⟨(row, _), Trie.mem_nodes.mpr ⟨_, (at_build fresh hS hE).mpr ⟨h, rfl⟩, rfl⟩, rfl⟩
  have hroot : [] ∉ starts (rowsOf edits) := fun h => (mem_starts.mp h).1 rfl
  calc (Trie.build fresh edits).nodeCount extra
      = (((Trie.build fresh edits).nodes.map Prod.fst).map fun row =>
          1 + extra (valueAt fresh row edits)).sum := by
        rw [Trie.nodeCount_eq extra (build_sorted fresh edits), List.map_map]
        refine congrArg List.sum (List.map_congr_left fun n hn => ?_)
        rw [hvalue n hn]
        rfl
    _ = ∑ row ∈ insert [] (starts (rowsOf edits)), (1 + extra (valueAt fresh row edits)) := by
        rw [← hrows, List.sum_toFinset _ (build_nodes_nodup fresh hS hE)]
    _ = _ := by
        rw [Finset.sum_add_distrib, ← Finset.card_eq_sum_ones, Finset.card_insert_of_notMem hroot,
          Nat.add_comm 1]

end

end UriRouting

import Mathlib.Data.List.Induction
import Mathlib.Data.List.Infix
import Mathlib.Data.List.Nodup
import Mathlib.Data.List.Perm.Subperm
import Mathlib.Logic.Relation
import UriRouting.Template.Outline
/-!
Outlines are trees.

An outline grows by additions to nodes that are there. Every node but the first has a parent with a smaller number,
and is in no list of children but that of its parent. So a tour from a node ends, and it goes through what is below the
node as recursion would: `below` is that recursion, down to a depth. The outlines of templates are made by such
additions, so all of this is true of them.
-/

namespace UriRouting
namespace Outline

/-! ## Additions -/

structure Addition where
  parent : Nat
  kind : NodeKind
  value : NodeValue

def add (o : Outline) (a : Addition) : Outline := o.addChild a.parent a.kind a.value

/-- What additions to the first node, and to each other, make. -/
def grown (additions : List Addition) : Outline := additions.foldl add start

/-- Each addition is to a node that is there by then. -/
def Founded (additions : List Addition) : Prop :=
  ∀ (k : Nat) (h : k < additions.length), additions[k].parent < (grown (additions.take k)).size

theorem grown_concat (additions : List Addition) (a : Addition) :
    grown (additions ++ [a]) = (grown additions).add a := List.foldl_concat ..

theorem founded_concat {additions : List Addition} {a : Addition} :
    Founded (additions ++ [a]) ↔ Founded additions ∧ a.parent < (grown additions).size := by
  constructor
  · intro h
    constructor
    · intro k hk
      have hadded := h k (by rw [List.length_append]; omega)
      rw [List.getElem_append_left hk, List.take_append_of_le_length (Nat.le_of_lt hk)] at hadded
      exact hadded
    · have hadded := h additions.length (by simp)
      rw [List.getElem_concat_length rfl, List.take_left] at hadded
      exact hadded
  · intro h k hk
    obtain ⟨hfounded, ha⟩ := h
    obtain hlt | rfl : k < additions.length ∨ k = additions.length := by
      rw [List.length_append, List.length_singleton] at hk
      omega
    · rw [List.getElem_append_left hlt, List.take_append_of_le_length (Nat.le_of_lt hlt)]
      exact hfounded k hlt
    · rw [List.getElem_concat_length rfl, List.take_left]
      exact ha

/-! ## Nodes -/

def parentOf? (o : Outline) (id : Nat) : Option Nat := (o.node? id).bind (·.parent?)

theorem node?_of_ge {o : Outline} {id : Nat} (h : o.size ≤ id) : o.node? id = none := Array.getElem?_eq_none h

theorem children_of_ge {o : Outline} {id : Nat} (h : o.size ≤ id) : o.children id = [] := by
  rw [children, node?_of_ge h]

theorem node?_add {o : Outline} {a : Addition} {id : Nat} : (o.add a).node? id =
    if id = o.size then some ⟨a.kind, a.value, some a.parent, #[]⟩
    else (o.node? id).map fun n => if a.parent = id then { n with children := n.children.push o.size } else n := by
  have hsize : (o.nodes.modify a.parent fun n => { n with children := n.children.push o.size }).size = o.size :=
    Array.size_modify
  show (Array.push _ _)[id]? = _
  rw [Array.getElem?_push, hsize]
  split
  · rfl
  · rw [Array.getElem?_modify, node?]
    split
    · rfl
    · rw [Option.map_id']

theorem parentOf?_add {o : Outline} {a : Addition} {id : Nat} :
    (o.add a).parentOf? id = if id = o.size then some a.parent else o.parentOf? id := by
  rw [parentOf?, node?_add]
  split
  · rfl
  · rw [parentOf?]
    cases o.node? id with
    | none => rfl
    | some n =>
      rw [Option.map_some, Option.bind_some, Option.bind_some]
      split <;> rfl

theorem children_add {o : Outline} {a : Addition} (ha : a.parent < o.size) {id : Nat} :
    (o.add a).children id = if id = a.parent then o.children id ++ [o.size] else o.children id := by
  obtain ⟨n, hn⟩ : ∃ n, o.node? a.parent = some n := ⟨_, Array.getElem?_eq_getElem ha⟩
  rw [children, node?_add]
  by_cases hid : id = o.size
  · subst hid
    rw [if_pos rfl, if_neg (Nat.ne_of_gt ha), children_of_ge (Nat.le_refl _)]
  · rw [if_neg hid]
    by_cases hparent : id = a.parent
    · subst hparent
      simp [children, hn]
    · rw [if_neg hparent, children]
      cases o.node? id with
      | none => rfl
      | some n => simp [Ne.symm hparent]

/-! ## Trees -/

/-- Node `0` has no parent, and each addition is a node of its own, behind its parent and in no list but its. The lists
are in the order of additions. -/
structure IsTree (additions : List Addition) (o : Outline) : Prop where
  size : o.size = additions.length + 1
  root : ∃ n, o.node? 0 = some n ∧ n.parent? = none
  added : ∀ k a, additions[k]? = some a → a.parent < k + 1 ∧
    ∃ n, o.node? (k + 1) = some n ∧ n.kind = a.kind ∧ n.value = a.value ∧ n.parent? = some a.parent
  once : ∀ id parent, (o.children parent).count id = if o.parentOf? id = some parent then 1 else 0
  inOrder : ∀ parent, (o.children parent).Pairwise (· < ·)

theorem isTree_start : IsTree [] start where
  size := rfl
  root := ⟨_, rfl, rfl⟩
  added := fun k a ha => by simp at ha
  once := fun id parent => by
    have hnone : ∀ id, start.children id = [] ∧ start.parentOf? id = none := fun id => by
      cases id <;> exact ⟨rfl, rfl⟩
    rw [(hnone parent).1, (hnone id).2]
    rfl
  inOrder := fun parent => by
    have hnone : start.children parent = [] := by cases parent <;> rfl
    rw [hnone]
    exact List.Pairwise.nil

theorem IsTree.mem_children {additions : List Addition} {o : Outline} (h : IsTree additions o) {c q : Nat} :
    c ∈ o.children q ↔ o.parentOf? c = some q := by
  rw [← List.count_pos_iff, h.once]
  split <;> simp [*]

theorem IsTree.lt {additions : List Addition} {o : Outline} (h : IsTree additions o) {c q : Nat}
    (hc : o.parentOf? c = some q) : q < c ∧ c < o.size := by
  obtain ⟨root, hroot, hnone⟩ := h.root
  cases c with
  | zero => simp [parentOf?, hroot, hnone] at hc
  | succ k =>
    have hsize := h.size
    obtain hk | hk := Nat.lt_or_ge k additions.length
    · obtain ⟨hlt, n, hn, -, -, hparent⟩ := h.added k _ (List.getElem?_eq_getElem hk)
      rw [parentOf?, hn, Option.bind_some, hparent] at hc
      cases hc
      exact ⟨hlt, by omega⟩
    · rw [parentOf?, node?_of_ge (by omega)] at hc
      cases hc

theorem IsTree.add {additions : List Addition} {o : Outline} (h : IsTree additions o) {a : Addition}
    (ha : a.parent < o.size) : IsTree (additions ++ [a]) (o.add a) where
  size := by
    rw [Outline.add, size_addChild, h.size, List.length_append, List.length_singleton]
  root := by
    obtain ⟨n, hn, hnone⟩ := h.root
    rw [node?_add, if_neg (by omega), hn, Option.map_some]
    refine ⟨_, rfl, ?_⟩
    split
    · exact hnone
    · exact hnone
  added := fun k b hb => by
    have hsize := h.size
    obtain hk | hk := Nat.lt_or_ge k additions.length
    · rw [List.getElem?_append_left hk] at hb
      obtain ⟨hlt, n, hn, hkind, hvalue, hparent⟩ := h.added k b hb
      rw [node?_add, if_neg (by omega), hn, Option.map_some]
      refine ⟨hlt, _, rfl, ?_⟩
      split
      · exact ⟨hkind, hvalue, hparent⟩
      · exact ⟨hkind, hvalue, hparent⟩
    · rw [List.getElem?_append_right hk, List.getElem?_singleton] at hb
      split at hb
      · cases hb
        rw [node?_add, if_pos (by omega)]
        exact ⟨by omega, _, rfl, rfl, rfl, rfl⟩
      · cases hb
  once := fun id parent => by
    have hnew : ∀ parent, (o.children parent).count o.size = 0 := fun parent => by
      rw [h.once, parentOf?, node?_of_ge (Nat.le_refl _)]
      rfl
    rw [children_add ha, parentOf?_add]
    by_cases hid : id = o.size
    · subst hid
      rw [if_pos rfl]
      by_cases hparent : parent = a.parent
      · rw [if_pos hparent, List.count_append, hnew, hparent]
        simp
      · rw [if_neg hparent, hnew, if_neg fun heq => hparent (Option.some.inj heq).symm]
    · rw [if_neg hid, ← h.once]
      split
      · rw [List.count_append, List.count_singleton, beq_false_of_ne (Ne.symm hid)]
        rfl
      · rfl
  inOrder := fun parent => by
    rw [children_add ha]
    split
    · refine List.pairwise_append.mpr ⟨h.inOrder parent, List.pairwise_singleton _ _, fun c hc c' hc' => ?_⟩
      rw [List.mem_singleton.mp hc']
      exact (h.lt (h.mem_children.mp hc)).2
    · exact h.inOrder parent

theorem isTree_grown {additions : List Addition} (h : Founded additions) : IsTree additions (grown additions) := by
  induction additions using List.reverseRecOn with
  | nil => exact isTree_start
  | append_singleton additions a ih =>
    obtain ⟨hfounded, ha⟩ := founded_concat.mp h
    rw [grown_concat]
    exact (ih hfounded).add ha

/-! ## Below a node -/

/-- The node `x` leads to `id` by links to parents. -/
def Under (o : Outline) (x id : Nat) : Prop := Relation.TransGen (fun c q => o.parentOf? c = some q) x id

/-- The nodes below `id` down to a depth, each before those below it. -/
def below (o : Outline) : Nat → Nat → List Nat
  | 0, _ => []
  | depth + 1, id => (o.children id).flatMap fun c => c :: o.below depth c

/-- Everything below `id`. No node is deeper than there are nodes. -/
def subtree (o : Outline) (id : Nat) : List Nat := o.below o.size id

theorem tour_over (o : Outline) (steps : Nat) (visited : List Nat) : o.tour steps ⟨[], visited⟩ = ⟨[], visited⟩ := by
  cases steps <;> rfl

section

variable {additions : List Addition} {o : Outline} (h : IsTree additions o)

include h

theorem IsTree.below_eq {depth depth' id : Nat} (hdepth : o.size ≤ id + depth) (hdepth' : o.size ≤ id + depth') :
    o.below depth id = o.below depth' id := by
  -- Numbers grow by one at least on the way down, so that neither depth cuts anything off.
  induction depth generalizing id depth' with
  | zero =>
    have hnone : o.children id = [] := children_of_ge hdepth
    cases depth' with
    | zero => rfl
    | succ depth' => rw [below, below, hnone, List.flatMap_nil]
  | succ depth ih =>
    cases depth' with
    | zero =>
      have hnone : o.children id = [] := children_of_ge hdepth'
      rw [below, below, hnone, List.flatMap_nil]
    | succ depth' =>
      rw [below, below, List.flatMap, List.flatMap]
      refine congrArg List.flatten (List.map_congr_left fun c hc => congrArg (c :: ·) (ih ?_ ?_))
      · have hlt := (h.lt (h.mem_children.mp hc)).1
        omega
      · have hlt := (h.lt (h.mem_children.mp hc)).1
        omega

theorem IsTree.subtree_eq (id : Nat) : o.subtree id = (o.children id).flatMap fun c => c :: o.subtree c := by
  have hdeeper : o.subtree id = o.below (o.size + 1) id := h.below_eq (by omega) (by omega)
  rw [hdeeper, below]
  rfl

/-- What holds of a node if it holds of all its children holds of every node. -/
theorem IsTree.induction {motive : Nat → Prop} (node : ∀ id, (∀ c ∈ o.children id, motive c) → motive id) (id : Nat) :
    motive id := by
  induction hheight : o.size - id using Nat.strong_induction_on generalizing id with
  | _ height ih =>
    refine node id fun c hc => ih (o.size - c) ?_ c rfl
    have hlt := h.lt (h.mem_children.mp hc)
    omega

theorem IsTree.mem_subtree {x id : Nat} : x ∈ o.subtree id ↔ o.Under x id := by
  induction id using h.induction with
  | node id ih =>
    rw [h.subtree_eq, List.mem_flatMap, Under, Relation.TransGen.tail'_iff]
    constructor
    · intro hx
      obtain ⟨c, hc, hx⟩ := hx
      refine ⟨c, ?_, h.mem_children.mp hc⟩
      obtain rfl | hx := List.mem_cons.mp hx
      · exact .refl
      · exact ((ih c hc).mp hx).to_reflTransGen
    · intro hx
      obtain ⟨c, hx, hc⟩ := hx
      have hc := h.mem_children.mpr hc
      refine ⟨c, hc, List.mem_cons.mpr ?_⟩
      obtain rfl | hx := Relation.reflTransGen_iff_eq_or_transGen.mp hx
      · exact Or.inl rfl
      · exact Or.inr ((ih c hc).mpr hx)

theorem IsTree.lt_of_under {x id : Nat} (hx : o.Under x id) : id < x ∧ x < o.size := by
  induction hx with
  | single hx => exact h.lt hx
  | tail _ hb ih =>
    have hlt := (h.lt hb).1
    omega

/-- No node is below two siblings. -/
theorem IsTree.not_under_sibling {x c d id : Nat} (hc : o.parentOf? c = some id) (hd : o.parentOf? d = some id)
    (hne : c ≠ d) (hxc : x ∈ c :: o.subtree c) : x ∉ d :: o.subtree d := by
  have hreach : ∀ {c : Nat}, x ∈ c :: o.subtree c → Relation.ReflTransGen (fun c q => o.parentOf? c = some q) x c := by
    intro c hx
    obtain rfl | hx := List.mem_cons.mp hx
    · exact .refl
    · exact (h.mem_subtree.mp hx).to_reflTransGen
  have hunique : Relator.RightUnique fun c q => o.parentOf? c = some q := fun c q q' hq hq' =>
    Option.some.inj (hq.symm.trans hq')
  -- A sibling above another would be above its own parent.
  have hup : ∀ {c d : Nat}, o.parentOf? c = some id → o.parentOf? d = some id → c ≠ d →
      ¬ Relation.ReflTransGen (fun c q => o.parentOf? c = some q) c d := by
    intro c d hc hd hne hcd
    obtain heq | ⟨parent, hparent, hrest⟩ := Relation.ReflTransGen.cases_head hcd
    · exact hne heq
    · obtain rfl := Option.some.inj (hc.symm.trans hparent)
      have hlt := (h.lt hd).1
      obtain rfl | hunder := Relation.reflTransGen_iff_eq_or_transGen.mp hrest
      · exact lt_irrefl _ hlt
      · have hlt' := (h.lt_of_under hunder).1
        omega
  intro hxd
  obtain hcd | hdc := Relation.ReflTransGen.total_of_right_unique hunique (hreach hxc) (hreach hxd)
  · exact hup hc hd hne hcd
  · exact hup hd hc (Ne.symm hne) hdc

theorem IsTree.nodup_subtree (id : Nat) : (o.subtree id).Nodup := by
  induction id using h.induction with
  | node id ih =>
    rw [h.subtree_eq]
    refine List.nodup_flatMap.mpr ⟨fun c hc => List.nodup_cons.mpr ⟨fun hmem => ?_, ih c hc⟩, ?_⟩
    · exact lt_irrefl c (h.lt_of_under (h.mem_subtree.mp hmem)).1
    · refine (h.inOrder id).imp_of_mem fun hc hd hlt x hxc hxd => ?_
      exact h.not_under_sibling (h.mem_children.mp hc) (h.mem_children.mp hd) (Nat.ne_of_lt hlt) hxc hxd

theorem IsTree.length_subtree_le (id : Nat) : (o.subtree id).length ≤ o.size := by
  have hrange : o.subtree id ⊆ List.range o.size := fun x hx =>
    List.mem_range.mpr (h.lt_of_under (h.mem_subtree.mp hx)).2
  have hle := ((h.nodup_subtree id).subperm hrange).length_le
  rw [List.length_range] at hle
  exact hle

/-- A subtree stands in one piece in those that it is in. -/
theorem IsTree.infix_subtree {x id : Nat} (hx : o.Under x id) : (x :: o.subtree x) <:+: o.subtree id := by
  have hchild : ∀ {c id : Nat}, o.parentOf? c = some id → (c :: o.subtree c) <:+: o.subtree id := by
    intro c id hc
    obtain ⟨before, after, hsplit⟩ := List.append_of_mem (h.mem_children.mpr hc)
    rw [h.subtree_eq id, hsplit, List.flatMap_append, List.flatMap_cons, ← List.append_assoc]
    exact ⟨_, _, rfl⟩
  -- From parent to parent, up to `id`.
  induction hx with
  | single hx => exact hchild hx
  | tail _ hb ih => exact ih.trans ((List.suffix_cons _ _).isInfix.trans (hchild hb))

/-! ## Tours -/

/-- A tour with the children of a node on its stack goes through what is below the node before it comes to what else is
there. -/
theorem IsTree.tour_children {depth id : Nat} (hdepth : o.size ≤ id + depth) (steps : Nat) (rest visited : List Nat) :
    o.tour (steps + (o.below depth id).length) ⟨o.children id ++ rest, visited⟩
      = o.tour steps ⟨rest, visited ++ o.below depth id⟩ := by
  induction depth generalizing id steps rest visited with
  | zero =>
    have hnone : o.children id = [] := children_of_ge hdepth
    rw [hnone, below, List.nil_append, List.append_nil]
    rfl
  | succ depth ih =>
    have hdeep : ∀ c ∈ o.children id, o.size ≤ c + depth := fun c hc => by
      have hlt := (h.lt (h.mem_children.mp hc)).1
      omega
    rw [below]
    -- What is shown of the children of the node is shown of those that are still on the stack.
    generalize o.children id = cs at hdeep ⊢
    induction cs generalizing visited with
    | nil => rw [List.flatMap_nil, List.nil_append, List.append_nil, List.length_nil, Nat.add_zero]
    | cons c cs ihcs =>
      have hsteps : steps + ((c :: cs).flatMap fun c => c :: o.below depth c).length
          = (steps + (cs.flatMap fun c => c :: o.below depth c).length + (o.below depth c).length) + 1 := by
        rw [List.flatMap_cons, List.length_append, List.length_cons]
        omega
      calc o.tour (steps + ((c :: cs).flatMap fun c => c :: o.below depth c).length) ⟨c :: cs ++ rest, visited⟩
          = o.tour (steps + (cs.flatMap fun c => c :: o.below depth c).length + (o.below depth c).length)
              ⟨o.children c ++ (cs ++ rest), visited ++ [c]⟩ := by rw [hsteps, List.cons_append, tour]
        _ = o.tour (steps + (cs.flatMap fun c => c :: o.below depth c).length)
              ⟨cs ++ rest, visited ++ [c] ++ o.below depth c⟩ := ih (hdeep c List.mem_cons_self) _ _ _
        _ = o.tour steps ⟨rest, visited ++ [c] ++ o.below depth c ++ cs.flatMap fun c => c :: o.below depth c⟩ :=
            ihcs _ fun c' hc' => hdeep c' (List.mem_cons_of_mem c hc')
        _ = _ := by rw [List.flatMap_cons, List.append_assoc, List.append_assoc, List.singleton_append,
            List.cons_append]

/-- A tour from the children of a node is over after a step for each node below it. -/
theorem IsTree.tour_eq {id steps : Nat} (hsteps : (o.subtree id).length ≤ steps) :
    o.tour steps ⟨o.children id, []⟩ = ⟨[], o.subtree id⟩ := by
  have htour := h.tour_children (Nat.le_add_left o.size id) (steps - (o.subtree id).length) [] []
  rw [List.append_nil, List.nil_append, tour_over] at htour
  rw [← Nat.sub_add_cancel hsteps]
  exact htour

theorem IsTree.descendants_eq (id : Nat) : o.descendants id = o.subtree id := by
  rw [descendants, h.tour_eq (h.length_subtree_le id)]

end

/-- What a tour from a node is to visit, and in what order. -/
structure InPreorder (o : Outline) (id : Nat) : Prop where
  /-- The tour ends, and more steps would add nothing. -/
  ends : ∀ more, o.tour (o.size + more) ⟨o.children id, []⟩ = ⟨[], o.descendants id⟩
  complete : ∀ x, x ∈ o.descendants id ↔ o.Under x id
  once : (o.descendants id).Nodup
  /-- A node comes after its parent, unless that is where the tour is from. -/
  afterParent : ∀ x ∈ o.descendants id, ∃ p, o.parentOf? x = some p ∧ (p = id ∨ [p, x].Sublist (o.descendants id))
  /-- Everything below a node comes right behind it and before its next sibling. -/
  beforeSibling : ∀ q, q = id ∨ q ∈ o.descendants id → ∀ before c d after, o.children q = before ++ c :: d :: after →
    (c :: o.descendants c ++ [d]) <:+: o.descendants id

theorem IsTree.inPreorder {additions : List Addition} {o : Outline} (h : IsTree additions o) (id : Nat) :
    o.InPreorder id := by
  have hwhole : ∀ {x : Nat}, o.Under x id → (x :: o.descendants x) <:+: o.descendants id := by
    intro x hx
    rw [h.descendants_eq, h.descendants_eq]
    exact h.infix_subtree hx
  have hmem : ∀ {x id : Nat}, x ∈ o.descendants id ↔ o.Under x id := by
    intro x id
    rw [h.descendants_eq, h.mem_subtree]
  refine ⟨fun more => ?_, fun x => hmem, ?_, fun x hx => ?_, fun q hq before c d after hsplit => ?_⟩
  · have hle := h.length_subtree_le id
    rw [h.tour_eq (by omega), h.descendants_eq]
  · rw [h.descendants_eq]
    exact h.nodup_subtree id
  · obtain ⟨p, hp, hrest⟩ := Relation.TransGen.head'_iff.mp (hmem.mp hx)
    refine ⟨p, hp, ?_⟩
    obtain rfl | hunder := Relation.reflTransGen_iff_eq_or_transGen.mp hrest
    · exact Or.inl rfl
    · have hbelow : x ∈ o.descendants p := hmem.mpr (Relation.TransGen.single hp)
      exact Or.inr ((List.cons_sublist_cons.mpr (List.singleton_sublist.mpr hbelow)).trans (hwhole hunder).sublist)
  · have hpiece : (c :: o.descendants c ++ [d]) <:+: o.descendants q := by
      rw [h.descendants_eq, h.descendants_eq, h.subtree_eq q, hsplit, List.flatMap_append, List.flatMap_cons,
        List.flatMap_cons]
      refine ⟨before.flatMap fun c => c :: o.subtree c, o.subtree d ++ after.flatMap fun c => c :: o.subtree c, ?_⟩
      simp only [List.append_assoc, List.cons_append, List.nil_append]
    obtain rfl | hq := hq
    · exact hpiece
    · exact hpiece.trans ((List.suffix_cons _ _).isInfix.trans (hwhole (hmem.mp hq)))

/-- Whatever is added to an outline, it is a tree, and every tour through it lists what is below a node in preorder. -/
theorem grown_inPreorder {additions : List Addition} (h : Founded additions) :
    IsTree additions (grown additions) ∧ ∀ id < (grown additions).size, (grown additions).InPreorder id :=
  ⟨isTree_grown h, fun id _ => (isTree_grown h).inPreorder id⟩

/-- A node that is added late to the third comes before the fifth on a tour. -/
theorem grown_inPreorder_late :
    let additions : List Addition := [⟨0, .host, .none⟩, ⟨0, .path, .none⟩, ⟨2, .optional, .none⟩, ⟨2, .delimiter, .text "/"⟩,
      ⟨1, .text, .text "a.org"⟩, ⟨3, .text, .text "b"⟩]
    Founded additions ∧ (grown additions).descendants 0 = [1, 5, 2, 3, 6, 4] ∧ (grown additions).InPreorder 0 := by
  intro additions
  have hfounded : Founded additions := by
    unfold Founded
    decide +kernel
  exact ⟨hfounded, by decide +kernel, (grown_inPreorder hfounded).2 0 (by decide +kernel)⟩

/-! ## Outlines of templates -/

/-- Additions made the outline, and `id` is one of its nodes. -/
structure Has (o : Outline) (id : Nat) : Prop where
  made : ∃ additions, Founded additions ∧ o = grown additions
  lt : id < o.size

theorem has_start : start.Has 0 := ⟨⟨[], fun k h => absurd h (Nat.not_lt_zero k), rfl⟩, Nat.one_pos⟩

theorem Has.mono {o : Outline} {id id' : Nat} (h : o.Has id) (hle : id' ≤ id) : o.Has id' := ⟨h.made, hle.trans_lt h.lt⟩

theorem Has.addChild {o : Outline} {id : Nat} (h : o.Has id) (kind : NodeKind) (value : NodeValue) :
    (o.addChild id kind value).Has o.size := by
  obtain ⟨⟨additions, hfounded, rfl⟩, hlt⟩ := h
  refine ⟨⟨_, founded_concat.mpr ⟨hfounded, hlt⟩, (grown_concat additions ⟨id, kind, value⟩).symm⟩, ?_⟩
  rw [size_addChild]
  exact Nat.lt_succ_self _

theorem Has.addRule {o : Outline} {id : Nat} (h : o.Has id) (r : RuleCall) : (o.addRule id r).Has id := by
  have hrule := h.addChild .rule (.text r.rule)
  simp only [Outline.addRule]
  split
  · exact hrule.mono h.lt.le
  · next ps hps => exact (hrule.addChild .params (.params ps)).mono (h.lt.le.trans hrule.lt.le)

theorem Has.addRules {o : Outline} {id : Nat} (h : o.Has id) (rules : List RuleCall) :
    (rules.foldl (fun o' r => o'.addRule id r) o).Has id := by
  induction rules generalizing o with
  | nil => exact h
  | cons r rules ih => exact ih (h.addRule r)

theorem Has.addParts {o : Outline} {id : Nat} (h : o.Has id) (side : Side) (parts : List (Part Slot)) :
    (addParts side id o parts).Has id := by
  induction parts using Part.rows_induction generalizing o id with
  | nil => exact h
  | delimiter rest ih => exact ih ((h.addChild _ _).mono h.lt.le)
  | text s rest ih => exact ih ((h.addChild _ _).mono h.lt.le)
  | var slot rest ih => exact ih (((h.addChild _ _).addRules slot.rules).mono h.lt.le)
  | optional inner rest ihinner ih => exact ih ((ihinner (h.addChild _ _)).mono h.lt.le)

/-- The outline of a template is a tree as well. -/
theorem ofTemplate_inPreorder (t : Template) :
    (∃ additions, IsTree additions (ofTemplate t)) ∧ ∀ id, (ofTemplate t).InPreorder id := by
  have hhas : ∃ id, (ofTemplate t).Has id := by
    rw [ofTemplate]
    cases t.host? with
    | none => exact ⟨_, (has_start.addChild .path .none).addParts .path t.path⟩
    | some parts =>
      have hhost := (has_start.addChild .host .none).addParts .host parts
      exact ⟨_, ((hhost.mono (Nat.zero_le _)).addChild .path .none).addParts .path t.path⟩
  obtain ⟨-, ⟨additions, hfounded, hmade⟩, -⟩ := hhas
  rw [hmade]
  exact ⟨⟨additions, isTree_grown hfounded⟩, (isTree_grown hfounded).inPreorder⟩

end Outline
end UriRouting

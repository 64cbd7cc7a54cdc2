import UriRouting.Proofs.Router.Contents
import UriRouting.Proofs.Trie.Fits
import UriRouting.Proofs.Trie.Nodes
/-!
The trie of a reachable router is in order.

`EndInShape` says what may hang at the end of a path, and attaching an entry keeps it. With the keys of
a template in order (`Compiler.Spells.fits`), `Trie.Shape.insert` carries it through a registration:
every node of the trie of paths, and every node of each trie of hosts, is in order.
-/

namespace UriRouting

variable {α : Type}

/-! ## The ends of paths -/

/-- Attached entries are among those of the router, and none is attached twice. -/
def Attached (entries es : List (Entry α)) : Prop :=
  (∀ e ∈ es, e ∈ entries) ∧ es.Pairwise fun a b => a.position ≠ b.position

/-- A trie of hosts is in order, and at some host in it an entry is attached. -/
structure HostsInShape (entries : List (Entry α)) (maxSegments : Nat) (t : Trie (List (Entry α))) :
    Prop where
  nodes : t.Shape (Key.Fits .host) maxSegments (Attached entries) (· ≠ [])
  used : ∃ labels s, Trie.At t labels s ∧ s.leaf ≠ []

structure EndInShape (entries : List (Entry α)) (maxSegments : Nat) (p : PathEnd α) : Prop where
  attached : Attached entries p.entries
  hosts : ∀ t, p.hosts? = some t → HostsInShape entries maxSegments t

/-- Something is attached at the end of a path. -/
def PathEnd.Used (p : PathEnd α) : Prop := p.entries ≠ [] ∨ p.hosts? ≠ none

section

variable {entries : List (Entry α)} {maxSegments : Nat} {e : Entry α}

theorem Attached.mono {es : List (Entry α)} (h : Attached entries es) (more : List (Entry α)) :
    Attached (entries ++ more) es :=
  ⟨fun e he => List.mem_append_left more (h.1 e he), h.2⟩

theorem EndInShape.mono {p : PathEnd α} (h : EndInShape entries maxSegments p)
    (more : List (Entry α)) : EndInShape (entries ++ more) maxSegments p :=
  ⟨h.attached.mono more, fun t ht =>
    ⟨(h.hosts t ht).nodes.imp fun _ hes => hes.mono more, (h.hosts t ht).used⟩⟩

theorem endInShape_empty : EndInShape entries maxSegments ({} : PathEnd α) :=
  ⟨⟨fun _ he => (List.not_mem_nil he).elim, List.Pairwise.nil⟩, fun _ ht => nomatch ht⟩

theorem attach_ne_nil (e : Entry α) (es : List (Entry α)) : attach e es ≠ [] := by
  unfold attach
  split
  · next hholds =>
    obtain ⟨e', he', -⟩ := List.any_eq_true.mp hholds
    exact List.ne_nil_of_mem he'
  · simp

theorem Attached.attach {es : List (Entry α)} (h : Attached entries es) (he : e ∈ entries) :
    Attached entries (attach e es) := by
  unfold UriRouting.attach
  split
  · exact h
  · next hholds =>
    refine ⟨fun a ha => ?_, List.pairwise_append.mpr ⟨h.2, List.pairwise_singleton _ e, ?_⟩⟩
    · rcases List.mem_append.mp ha with ha | ha
      · exact h.1 a ha
      · rw [List.mem_singleton.mp ha]
        exact he
    · intro a ha b hb hposition
      rw [List.mem_singleton.mp hb] at hposition
      exact hholds (List.any_eq_true.mpr ⟨a, ha, decide_eq_true hposition⟩)

/-- The labels of a host are in order, and there are not too many of them. -/
def HostFits (maxSegments : Nat) (host? : Option (List Key)) : Prop :=
  ∀ host, host? = some host → (∀ k ∈ host, k.Fits .host) ∧ host.length ≤ maxSegments

theorem HostsInShape.insert {t : Trie (List (Entry α))}
    (h : t.Shape (Key.Fits .host) maxSegments (Attached entries) (· ≠ [])) (he : e ∈ entries)
    {host : List Key} (hkeys : ∀ k ∈ host, k.Fits .host) (hlimit : host.length ≤ maxSegments) :
    HostsInShape entries maxSegments (t.insert [] (attach e) host) := by
  refine ⟨h.insert hkeys hlimit ?_ (fun es hes => hes.attach he) fun es _ => attach_ne_nil e es, ?_⟩
  · exact ⟨fun _ he => (List.not_mem_nil he).elim, List.Pairwise.nil⟩
  · obtain ⟨labels, s, es, hs, hleaf, -, -⟩ := Trie.exists_at_insert [] (attach e) host h.sorted
    exact ⟨labels, s, hs, by rw [hleaf]; exact attach_ne_nil e es⟩

theorem EndInShape.attach {p : PathEnd α} (h : EndInShape entries maxSegments p) (he : e ∈ entries)
    {host? : Option (List Key)} (hhost : HostFits maxSegments host?) :
    EndInShape entries maxSegments (p.attach e host?) ∧ (p.attach e host?).Used := by
  cases host? with
  | none => exact ⟨⟨h.attached.attach he, h.hosts⟩, Or.inl (attach_ne_nil e p.entries)⟩
  | some host =>
    obtain ⟨hkeys, hlimit⟩ := hhost host rfl
    refine ⟨⟨h.attached, fun t ht => ?_⟩, Or.inr (Option.some_ne_none _)⟩
    cases ht
    cases hhosts : p.hosts? with
    | none =>
      exact HostsInShape.insert (Trie.shape_single ⟨fun _ he => (List.not_mem_nil he).elim,
        List.Pairwise.nil⟩) he hkeys hlimit
    | some t => exact HostsInShape.insert (h.hosts t hhosts).nodes he hkeys hlimit

theorem EndInShape.attachAll {hosts : List (Option (List Key))}
    (hhosts : ∀ host? ∈ hosts, HostFits maxSegments host?) (he : e ∈ entries) {p : PathEnd α}
    (h : EndInShape entries maxSegments p) :
    EndInShape entries maxSegments (p.attachAll e hosts).1 ∧
      (hosts ≠ [] ∨ p.Used → (p.attachAll e hosts).1.Used) := by
  induction hosts generalizing p with
  | nil => exact ⟨h, fun hused => hused.resolve_left fun hne => hne rfl⟩
  | cons host? rest ih =>
    obtain ⟨hshape, hused⟩ := h.attach he (hhosts host? List.mem_cons_self)
    obtain ⟨hshape', hused'⟩ := ih (fun h hh => hhosts h (List.mem_cons_of_mem _ hh)) hshape
    exact ⟨hshape', fun _ => hused' (Or.inr hused)⟩

end

/-! ## Templates -/

namespace Compiler

theorem expand_ne_nil {c : Compiler} {side : Side} {parts : List (Part Slot)} {rows : List (List Key)}
    (h : c.expand side parts = .ok rows) : rows ≠ [] := by
  obtain ⟨resolved, _, -, hforms⟩ := expand_resolves h
  obtain ⟨form, hform⟩ := exists_kept resolved
  intro hnil
  have hlength := length_mapM_ok hforms
  rw [hnil] at hlength
  exact List.ne_nil_of_mem (mem_formsOf.mpr hform) (List.length_eq_zero_iff.mp hlength.symm)

theorem hosts_ne_nil {c : Compiler} {t : Template} {compiled : CompiledTemplate}
    (h : c.compile t = .ok compiled) : compiled.hosts ≠ [] := by
  rcases (compile_ok h).2 with ⟨-, hhosts⟩ | ⟨parts, rows, -, hexpand, hhosts⟩
  · rw [hhosts]
    exact List.cons_ne_nil _ _
  · rw [hhosts]
    simpa using expand_ne_nil hexpand

/-- The rows of keys of a template whose texts are in order fit the sides. -/
theorem compile_fits {c : Compiler} {t : Template} {compiled : CompiledTemplate}
    (htexts : t.TextsInOrder) (h : c.compile t = .ok compiled) :
    (∀ row ∈ compiled.paths, (∀ k ∈ row, k.Fits .path) ∧ row.length ≤ c.config.maxSegments) ∧
      ∀ host? ∈ compiled.hosts, HostFits c.config.maxSegments host? := by
  obtain ⟨hpaths, hhosts⟩ := mem_compile h
  refine ⟨fun row hrow => ((hpaths row).mp hrow).fits htexts.1, fun host? hhost host hsome => ?_⟩
  have hspells := (hhosts host?).mp hhost
  rw [hsome] at hspells
  cases hparts : t.host? with
  | none =>
    rw [hparts] at hspells
    exact hspells.elim
  | some parts =>
    rw [hparts] at hspells
    obtain ⟨hkeys, hlimit⟩ := Spells.fits hspells (htexts.2 parts hparts)
    rw [List.length_reverse] at hlimit
    exact ⟨fun k hk => hkeys k (List.mem_reverse.mpr hk), hlimit⟩

end Compiler

/-! ## Routers -/

namespace Router

/-- Every node of the trie of paths is in order, and so is every trie of hosts at one of them. -/
def InShape (r : Router α) : Prop :=
  r.root.Shape (Key.Fits .path) r.config.maxSegments (EndInShape r.entries r.config.maxSegments)
    PathEnd.Used

theorem inShape_empty (factory : RuleFactory) (config : Config) :
    (empty factory config : Router α).InShape :=
  Trie.shape_single endInShape_empty

theorem attachAll_shape {entries : List (Entry α)} {maxSegments : Nat} {e : Entry α}
    (he : e ∈ entries) {hosts : List (Option (List Key))} (hne : hosts ≠ [])
    (hhosts : ∀ host? ∈ hosts, HostFits maxSegments host?) {paths : List (List Key)}
    (hpaths : ∀ row ∈ paths, (∀ k ∈ row, k.Fits .path) ∧ row.length ≤ maxSegments)
    {t : RouteTrie α}
    (h : t.Shape (Key.Fits .path) maxSegments (EndInShape entries maxSegments) PathEnd.Used) :
    (RouteTrie.attachAll e hosts paths t).1.Shape (Key.Fits .path) maxSegments
      (EndInShape entries maxSegments) PathEnd.Used := by
  induction paths generalizing t with
  | nil => exact h
  | cons path rest ih =>
    obtain ⟨hkeys, hlimit⟩ := hpaths path List.mem_cons_self
    refine ih (fun row hrow => hpaths row (List.mem_cons_of_mem path hrow)) ?_
    exact h.insert hkeys hlimit endInShape_empty (fun p hp => (hp.attachAll hhosts he).1)
      fun p hp => (hp.attachAll hhosts he).2 (Or.inl hne)

theorem InShape.extended {r : Router α} (h : r.InShape) {route : Route α} {template : Template}
    {compiled : CompiledTemplate} (haccepts : r.Accepts route template compiled) :
    (r.extended route template compiled).InShape := by
  obtain ⟨hpaths, hhosts⟩ := Compiler.compile_fits (ofString_texts haccepts.reads) haccepts.compiles
  refine attachAll_shape (List.mem_append_right _ List.mem_cons_self)
    (Compiler.hosts_ne_nil haccepts.compiles) hhosts hpaths ?_
  exact Trie.Shape.imp h fun p hp => hp.mono _

theorem Reachable.inShape {r : Router α} (h : Reachable r) : r.InShape :=
  h.invariant inShape_empty fun _ _ _ _ haccepts h => h.extended haccepts

/-- Whatever was registered, every node of the trie of paths is in order, and so is every node of a
trie of hosts at one of them. -/
theorem Reachable.nodes_in_order {r : Router α} (h : Reachable r) :
    (∀ path s, Trie.At r.root path s →
      Trie.NodeShape (Key.Fits .path) r.config.maxSegments (fun p => Attached r.entries p.entries)
        (fun p => p.entries ≠ [] ∨ p.hosts? ≠ none) path s) ∧
      ∀ path s hosts, Trie.At r.root path s → s.leaf.hosts? = some hosts →
        (∀ labels s', Trie.At hosts labels s' →
          Trie.NodeShape (Key.Fits .host) r.config.maxSegments (Attached r.entries) (· ≠ []) labels s') ∧
        ∃ labels s', Trie.At hosts labels s' ∧ s'.leaf ≠ [] := by
  refine ⟨Trie.Shape.imp h.inShape fun p hp => hp.attached, fun path s hosts hs hhosts => ?_⟩
  obtain ⟨hnodes, hused⟩ := (h.inShape path s hs).good.hosts hosts hhosts
  exact ⟨hnodes, hused⟩

theorem nodes_in_order_shelf :
    Reachable shelf ∧ (∀ path s, Trie.At shelf.root path s →
      Trie.NodeShape (Key.Fits .path) 64 (fun p => Attached shelf.entries p.entries)
        (fun p => p.entries ≠ [] ∨ p.hosts? ≠ none) path s) ∧
      ∀ path s hosts, Trie.At shelf.root path s → s.leaf.hosts? = some hosts →
        (∀ labels s', Trie.At hosts labels s' →
          Trie.NodeShape (Key.Fits .host) 64 (Attached shelf.entries) (· ≠ []) labels s') ∧
        ∃ labels s', Trie.At hosts labels s' ∧ s'.leaf ≠ [] := by
  have hlimit : shelf.config.maxSegments = 64 := by decide +kernel
  have h := Reachable.nodes_in_order shelf_reachable
  rw [hlimit] at h
  exact ⟨shelf_reachable, h⟩

end Router

end UriRouting

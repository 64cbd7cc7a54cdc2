import UriRouting.Proofs.Router.Attachments
import UriRouting.Proofs.Router.Registration
import UriRouting.Proofs.Trie.Forms
/-!
What a reachable router holds.

`Sound` ties the trie to the entries: each entry is at its place with the template of its route, and
the trie is the one that their edits build, one edit for each row of keys of a path. At the end of a
path hangs what was attached there, one attachment for each host of each such edit.
-/

namespace UriRouting

namespace Router

variable {α : Type}

/-! ## The trie -/

def compiledOf (r : Router α) (e : Entry α) : CompiledTemplate :=
  match (r.compilerFor e.route).compile e.template with
  | .ok compiled => compiled
  | .error _ => ⟨[], none⟩

/-- The edits of an entry, one for each row of its path. -/
def editsOf (r : Router α) (e : Entry α) : List (Edit (PathEnd α)) :=
  (r.compiledOf e).paths.map fun path =>
    ⟨path, fun p => p.extend ((r.compiledOf e).hosts.map fun host? => (e, host?))⟩

/-- The edits of all entries. -/
def edits (r : Router α) : List (Edit (PathEnd α)) := r.entries.flatMap r.editsOf

/-- Entries are at their places with the templates of their routes, and the trie is built by their
edits. -/
structure Sound (r : Router α) : Prop where
  position : ∀ i (e : Entry α), r.entries[i]? = some e → e.position = i
  reads : ∀ e ∈ r.entries, Template.ofString e.route.template.source = .ok e.template
  compiles : ∀ e ∈ r.entries, (r.compilerFor e.route).compile e.template = .ok (r.compiledOf e)
  root_eq : r.root = Trie.build {} r.edits

theorem attachAll_root (e : Entry α) (hosts : List (Option (List Key))) (paths : List (List Key))
    (t : RouteTrie α) :
    (RouteTrie.attachAll e hosts paths t).1 = paths.foldl
      (fun t path => Trie.insert {} (fun p => p.extend (hosts.map fun host? => (e, host?))) path t)
      t := by
  induction paths generalizing t with
  | nil => rfl
  | cons path rest ih =>
    rw [List.foldl_cons, ← ih]
    show (RouteTrie.attachAll e hosts rest (RouteTrie.attachPath e hosts path t)).1 = _
    simp only [RouteTrie.attachPath, attachAll_eq]

theorem Accepts.compiledOf_eq {r : Router α} {route : Route α} {template : Template}
    {compiled : CompiledTemplate} (haccepts : r.Accepts route template compiled) :
    r.compiledOf (r.entryFor route template) = compiled := by
  show (match (r.compilerFor route).compile template with
    | .ok compiled => compiled
    | .error _ => ⟨[], none⟩) = compiled
  rw [haccepts.compiles]

theorem Sound.extended {r : Router α} (h : r.Sound) {route : Route α} {template : Template}
    {compiled : CompiledTemplate} (haccepts : r.Accepts route template compiled) :
    (r.extended route template compiled).Sound := by
  have hnew := haccepts.compiledOf_eq
  have hentries : (r.extended route template compiled).entries
      = r.entries ++ [r.entryFor route template] := rfl
  refine ⟨fun i e he => ?_, fun e he => ?_, fun e he => ?_, ?_⟩
  · rw [hentries] at he
    rcases Nat.lt_trichotomy i r.entries.length with hi | rfl | hi
    · rw [List.getElem?_append_left hi] at he
      exact h.position i e he
    · rw [List.getElem?_concat_length] at he
      cases he
      rfl
    · rw [List.getElem?_append_right (by omega), List.getElem?_eq_none (by simp; omega)] at he
      cases he
  · rw [hentries] at he
    rcases List.mem_append.mp he with he | he
    · exact h.reads e he
    · rw [List.mem_singleton.mp he]
      exact haccepts.reads
  · rw [hentries] at he
    rcases List.mem_append.mp he with he | he
    · exact h.compiles e he
    · rw [List.mem_singleton.mp he]
      show (r.compilerFor route).compile template = .ok (r.compiledOf _)
      rw [hnew]
      exact haccepts.compiles
  · have hedits : (r.extended route template compiled).edits
        = r.edits ++ r.editsOf (r.entryFor route template) := by
      show (r.entries ++ [r.entryFor route template]).flatMap r.editsOf = _
      rw [List.flatMap_append, List.flatMap_singleton]
      rfl
    rw [hedits, Trie.build, List.foldl_append, ← Trie.build, ← h.root_eq, editsOf, hnew,
      List.foldl_map]
    exact attachAll_root _ _ _ _

theorem Reachable.sound {r : Router α} (h : Reachable r) : r.Sound := by
  refine h.invariant (P := Sound) ?_ ?_
  · intro factory config
    refine ⟨?_, ?_, ?_, rfl⟩
    · intro i e he
      cases he
    · intro e he
      cases he
    · intro e he
      cases he
  · intro r route template compiled haccepts hr
    exact hr.extended haccepts

/-! ## Keys -/

def keysOf (r : Router α) (e : Entry α) : List Key :=
  ((r.compiledOf e).paths ++ (r.compiledOf e).hosts?.getD []).flatten

def keys (r : Router α) : List Key := r.entries.flatMap r.keysOf

def ruleParams (r : Router α) : List Param := r.keys.flatMap Key.params

theorem mem_keysOf_path {r : Router α} {e : Entry α} {row : List Key}
    (hrow : row ∈ (r.compiledOf e).paths) : ∀ k ∈ row, k ∈ r.keysOf e := fun _ hk =>
  List.mem_flatten.mpr ⟨row, List.mem_append_left _ hrow, hk⟩

theorem mem_keysOf_host {r : Router α} {e : Entry α} {host : List Key}
    (hhost : some host ∈ (r.compiledOf e).hosts) : ∀ k ∈ host, k ∈ r.keysOf e := by
  intro k hk
  refine List.mem_flatten.mpr ⟨host, List.mem_append_right _ ?_, hk⟩
  unfold CompiledTemplate.hosts at hhost
  split at hhost
  · cases List.mem_singleton.mp hhost
  · next hosts hsome =>
    obtain ⟨host', hhost', h⟩ := List.mem_map.mp hhost
    cases h
    rw [hsome]
    exact hhost'

theorem path_keys {r : Router α} {e : Entry α} (he : e ∈ r.entries) {row : List Key}
    (hrow : row ∈ (r.compiledOf e).paths) : ∀ k ∈ row, k ∈ r.keys := fun k hk =>
  List.mem_flatMap.mpr ⟨e, he, mem_keysOf_path hrow k hk⟩

theorem host_keys {r : Router α} {e : Entry α} (he : e ∈ r.entries) {host : List Key}
    (hhost : some host ∈ (r.compiledOf e).hosts) : ∀ k ∈ host, k ∈ r.keys := fun k hk =>
  List.mem_flatMap.mpr ⟨e, he, mem_keysOf_host hhost k hk⟩

/-- The keys of an entry are those that its path and its host stand for. -/
theorem Sound.key_spelled {r : Router α} (h : r.Sound) {e : Entry α} (he : e ∈ r.entries) {k : Key}
    (hk : k ∈ r.keysOf e) : ∃ side parts row, (parts = e.template.path ∨ e.template.host? = some parts) ∧
      (r.compilerFor e.route).Spells side parts row ∧ k ∈ row := by
  obtain ⟨row, hrow, hk⟩ := List.mem_flatten.mp hk
  obtain ⟨hpaths, hhosts⟩ := Compiler.mem_compile (h.compiles e he)
  rcases List.mem_append.mp hrow with hrow | hrow
  · exact ⟨.path, _, row, Or.inl rfl, (hpaths row).mp hrow, hk⟩
  · cases hhost : (r.compiledOf e).hosts? with
    | none =>
      rw [hhost] at hrow
      cases hrow
    | some hosts =>
      rw [hhost] at hrow
      have hmem : some row ∈ (r.compiledOf e).hosts := by
        unfold CompiledTemplate.hosts
        rw [hhost]
        exact List.mem_map_of_mem hrow
      have hspells := (hhosts (some row)).mp hmem
      unfold Compiler.SpellsHost at hspells
      split at hspells
      · next h => cases h
      · next hparts h =>
        cases h
        exact ⟨.host, _, _, Or.inr hparts, hspells, List.mem_reverse.mpr hk⟩
      · exact hspells.elim

theorem Sound.madeBy {r : Router α} (h : r.Sound) : ∀ k ∈ r.keys, k.MadeBy r.factory := by
  intro k hk
  obtain ⟨e, he, hk⟩ := List.mem_flatMap.mp hk
  obtain ⟨side, parts, row, -, hspells, hk⟩ := h.key_spelled he hk
  exact hspells.madeBy k hk

/-- With lawful parameters no two keys of a router are the same without being equal. -/
theorem Sound.sharp {r : Router α} (h : r.Sound) (hlawful : Lawful r.ruleParams) :
    Sharp (· ∈ r.keys) := by
  have hkeys : ∀ k ∈ r.keys, k.MadeBy r.factory ∧ ∀ p ∈ k.params, p ∈ r.ruleParams := fun k hk =>
    ⟨h.madeBy k hk, fun p hp => List.mem_flatMap.mpr ⟨k, hk, hp⟩⟩
  exact fun k hk k' hk' => sharp_of_lawful hlawful r.factory k (hkeys k hk) k' (hkeys k' hk')

theorem over_edits (r : Router α) : Over (· ∈ r.keys) r.edits := by
  intro edit hedit
  obtain ⟨e, he, hedit⟩ := List.mem_flatMap.mp hedit
  obtain ⟨row, hrow, rfl⟩ := List.mem_map.mp hedit
  exact path_keys he hrow

/-! ## The ends of paths -/

open Classical in
/-- What an entry attaches at the end of a path: all its hosts, once for each of its rows that is the
path. -/
noncomputable def attachmentsOf (r : Router α) (path : List Key) (e : Entry α) :
    List (Attachment α) :=
  (r.compiledOf e).paths.flatMap fun row =>
    if row = path then (r.compiledOf e).hosts.map fun host? => (e, host?) else []

/-- What is attached at the end of a path, in order. -/
noncomputable def attachmentsAt (r : Router α) (path : List Key) : List (Attachment α) :=
  r.entries.flatMap (r.attachmentsOf path)

theorem mem_attachmentsAt {r : Router α} {path : List Key} {e : Entry α} {host? : Option (List Key)} :
    (e, host?) ∈ r.attachmentsAt path ↔
      e ∈ r.entries ∧ path ∈ (r.compiledOf e).paths ∧ host? ∈ (r.compiledOf e).hosts := by
  unfold attachmentsAt attachmentsOf
  simp only [List.mem_flatMap]
  constructor
  · intro h
    obtain ⟨e', he', row, hrow, h⟩ := h
    split at h
    · next heq =>
      obtain ⟨host', hhost', h⟩ := List.mem_map.mp h
      cases h
      exact ⟨he', heq ▸ hrow, hhost'⟩
    · cases h
  · intro h
    obtain ⟨he, hpath, hhost⟩ := h
    refine ⟨e, he, path, hpath, ?_⟩
    rw [if_pos rfl]
    exact List.mem_map.mpr ⟨host?, hhost, rfl⟩

theorem valueAt_edits {r : Router α} (hS : Sharp (· ∈ r.keys)) {path : List Key}
    (hpath : ∀ k ∈ path, k ∈ r.keys) :
    valueAt {} path r.edits = PathEnd.extend {} (r.attachmentsAt path) := by
  rw [valueAt_eq_foldl {} hS hpath r.over_edits, edits, PathEnd.extend, attachmentsAt,
    List.foldl_flatMap, List.foldl_flatMap]
  refine List.foldl_ext _ _ _ fun p e he => ?_
  rw [editsOf, attachmentsOf, List.foldl_map, List.foldl_flatMap]
  refine List.foldl_ext _ _ _ fun p row hrow => ?_
  split
  · rfl
  · rfl

theorem Sound.entries_pairwise {r : Router α} (h : r.Sound) :
    r.entries.Pairwise fun a b => a.position < b.position := by
  rw [List.pairwise_iff_getElem]
  intro i j hi hj hij
  rw [h.position i _ (List.getElem?_eq_getElem hi), h.position j _ (List.getElem?_eq_getElem hj)]
  exact hij

theorem Sound.attachmentsAt_pairwise {r : Router α} (h : r.Sound) (path : List Key) :
    (r.attachmentsAt path).Pairwise fun a b => a.1 = b.1 ∨ a.1.position < b.1.position := by
  have hentry : ∀ {e : Entry α} {a : Attachment α}, a ∈ r.attachmentsOf path e → a.1 = e := by
    intro e a ha
    obtain ⟨row, -, ha⟩ := List.mem_flatMap.mp ha
    split at ha
    · obtain ⟨host?, -, rfl⟩ := List.mem_map.mp ha
      rfl
    · cases ha
  refine List.pairwise_flatMap.mpr ⟨fun e he => ?_, h.entries_pairwise.imp fun hlt a ha b hb => ?_⟩
  · exact List.pairwise_of_forall_mem_list fun a ha b hb =>
      Or.inl ((hentry ha).trans (hentry hb).symm)
  · rw [hentry ha, hentry hb]
    exact Or.inr hlt

end Router

end UriRouting

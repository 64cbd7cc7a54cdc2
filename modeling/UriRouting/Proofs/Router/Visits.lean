import UriRouting.Proofs.Router.Survey
import UriRouting.Proofs.Trie.Reach
/-!
Walks come by every candidate.

A route is visited by each row of its own keys that takes a request. That needs less than the full
agreement of walks and templates: parameters that are the same have to be equal, but one that is not
the same as itself does no harm, for it makes more nodes and not fewer.
-/

namespace UriRouting

variable {α : Type}

/-! ## Attachments -/

theorem mem_of_mem_attach {e a : Entry α} {es : List (Entry α)} (h : a ∈ attach e es) :
    a ∈ es ∨ a = e := by
  unfold attach at h
  split at h
  · exact Or.inl h
  · rcases List.mem_append.mp h with h | h
    · exact Or.inl h
    · exact Or.inr (List.mem_singleton.mp h)

theorem mem_attach_of_mem {e a : Entry α} {es : List (Entry α)} (h : a ∈ es) : a ∈ attach e es := by
  unfold attach
  split
  · exact h
  · exact List.mem_append_left _ h

/-- An entry is attached, unless its place is taken by another one. -/
theorem mem_attach_self {e : Entry α} {es : List (Entry α)}
    (h : ∀ a ∈ es, a.position = e.position → a = e) : e ∈ attach e es := by
  unfold attach
  split
  · next hholds =>
    obtain ⟨a, ha, hposition⟩ := List.any_eq_true.mp hholds
    rw [← h a ha (of_decide_eq_true hposition)]
    exact ha
  · exact List.mem_append_right _ List.mem_cons_self

theorem mem_of_mem_listed {es : List (Entry α)} {e : Entry α} (h : e ∈ listed es) : e ∈ es := by
  induction es using List.reverseRecOn with
  | nil => exact h
  | append_singleton es last ih =>
    rw [listed_concat] at h
    rcases mem_of_mem_attach h with h | rfl
    · exact List.mem_append_left _ (ih h)
    · exact List.mem_append_right es List.mem_cons_self

theorem mem_listed_iff {es : List (Entry α)}
    (h : ∀ a ∈ es, ∀ b ∈ es, a.position = b.position → a = b) {e : Entry α} :
    e ∈ listed es ↔ e ∈ es := by
  refine ⟨mem_of_mem_listed, fun he => ?_⟩
  induction es using List.reverseRecOn with
  | nil => exact he
  | append_singleton es last ih =>
    rw [listed_concat]
    rcases List.mem_append.mp he with he | he
    · exact mem_attach_of_mem (ih (fun a ha b hb =>
        h a (List.mem_append_left _ ha) b (List.mem_append_left _ hb)) he)
    · rw [List.mem_singleton.mp he]
      refine mem_attach_self fun a ha => h a (List.mem_append_left _ (mem_of_mem_listed ha)) last ?_
      exact List.mem_append_right es List.mem_cons_self

namespace Router

theorem Sound.eq_of_position {r : Router α} (h : r.Sound) {e e' : Entry α} (he : e ∈ r.entries)
    (he' : e' ∈ r.entries) (hposition : e.position = e'.position) : e = e' := by
  obtain ⟨i, hi⟩ := List.mem_iff_getElem?.mp he
  obtain ⟨j, hj⟩ := List.mem_iff_getElem?.mp he'
  rw [h.position i e hi, h.position j e' hj] at hposition
  rw [hposition, hj] at hi
  exact (Option.some.inj hi).symm

/-- The attachments that entries ask for. -/
def IsAttachment (r : Router α) (a : Attachment α) : Prop :=
  a.1 ∈ r.entries ∧ a.2 ∈ (r.compiledOf a.1).hosts

theorem Sound.faithful {r : Router α} (h : r.Sound) (hseparate : Separate r.ruleParams) :
    Faithful (· ∈ r.keys) := by
  have hkeys : ∀ k ∈ r.keys, k.MadeBy r.factory ∧ ∀ p ∈ k.params, p ∈ r.ruleParams := fun k hk =>
    ⟨h.madeBy k hk, fun p hp => List.mem_flatMap.mpr ⟨k, hk, hp⟩⟩
  exact fun k hk k' hk' => faithful_of_separate hseparate r.factory k (hkeys k hk) k' (hkeys k' hk')

/-- The row of a route's path leads to where the route is attached. -/
theorem Sound.path_reaches {r : Router α} (h : r.Sound) (hseparate : Separate r.ruleParams)
    {e : Entry α} (he : e ∈ r.entries) {row : List Key} (hrow : row ∈ (r.compiledOf e).paths)
    {host? : Option (List Key)} (hhost : host? ∈ (r.compiledOf e).hosts) :
    ∃ (s : RouteTrie α) (l : List (Attachment α)), Trie.At r.root row s ∧
      s.leaf = PathEnd.extend {} l ∧ (∀ a ∈ l, r.IsAttachment a) ∧ (e, host?) ∈ l := by
  have hextend : ∀ l more : List (Attachment α),
      (PathEnd.extend {} l).extend more = PathEnd.extend {} (l ++ more) := fun _ _ =>
    (List.foldl_append ..).symm
  have hattachments : ∀ edit ∈ r.edits, ∃ e' ∈ r.entries, edit.update = fun p =>
      p.extend ((r.compiledOf e').hosts.map fun host? => (e', host?)) := by
    intro edit hedit
    obtain ⟨e', he', hedit⟩ := List.mem_flatMap.mp hedit
    obtain ⟨row', -, rfl⟩ := List.mem_map.mp hedit
    exact ⟨e', he', rfl⟩
  have hnew : ∀ {e' : Entry α}, e' ∈ r.entries →
      ∀ a ∈ (r.compiledOf e').hosts.map fun host? => (e', host?), r.IsAttachment a := by
    intro e' he' a ha
    obtain ⟨host', hhost', rfl⟩ := List.mem_map.mp ha
    exact ⟨he', hhost'⟩
  have hmem : (⟨row, fun p => p.extend ((r.compiledOf e).hosts.map fun host? => (e, host?))⟩ :
      Edit (PathEnd α)) ∈ r.edits :=
    List.mem_flatMap.mpr ⟨e, he, List.mem_map.mpr ⟨row, hrow, rfl⟩⟩
  have hfresh : ∃ l, (∀ a ∈ l, r.IsAttachment a) ∧ ({} : PathEnd α) = PathEnd.extend {} l :=
    ⟨[], fun _ ha => (List.not_mem_nil ha).elim, rfl⟩
  obtain ⟨s, hs, l, hl, hattached, hleaf⟩ := build_reaches
    (fun p => ∃ l, (∀ a ∈ l, r.IsAttachment a) ∧ p = PathEnd.extend {} l)
    (h.faithful hseparate) r.over_edits hfresh
    (fun edit hedit p hp => by
      obtain ⟨e', he', hupdate⟩ := hattachments edit hedit
      obtain ⟨l, hl, rfl⟩ := hp
      refine ⟨_, List.forall_mem_append.mpr ⟨hl, hnew he'⟩, ?_⟩
      rw [hupdate]
      exact hextend _ _)
    (fun p => ∃ l, (∀ a ∈ l, r.IsAttachment a) ∧ (e, host?) ∈ l ∧ p = PathEnd.extend {} l) hmem
    (fun p hp => by
      obtain ⟨l, hl, rfl⟩ := hp
      refine ⟨_, List.forall_mem_append.mpr ⟨hl, hnew he⟩, ?_, hextend _ _⟩
      exact List.mem_append_right l (List.mem_map.mpr ⟨host?, hhost, rfl⟩))
    (fun edit hedit p _ hp => by
      obtain ⟨e', he', hupdate⟩ := hattachments edit hedit
      obtain ⟨l, hl, hattached, rfl⟩ := hp
      refine ⟨_, List.forall_mem_append.mpr ⟨hl, hnew he'⟩, List.mem_append_left _ hattached, ?_⟩
      rw [hupdate]
      exact hextend _ _)
  rw [← h.root_eq] at hs
  exact ⟨s, l, hs, hleaf, hl, hattached⟩

/-- The row of a route's host leads to where the route is attached. -/
theorem Sound.host_reaches {r : Router α} (h : r.Sound) (hseparate : Separate r.ruleParams)
    {l : List (Attachment α)} (hl : ∀ a ∈ l, r.IsAttachment a) {e : Entry α} {labels : List Key}
    (hmem : (e, some labels) ∈ l) :
    ∃ s, Trie.At (Trie.build [] (hostEdits l)) labels s ∧ e ∈ s.leaf := by
  have hattach : ∀ edit ∈ hostEdits l, ∃ e' ∈ r.entries, edit.update = attach e' := by
    intro edit hedit
    obtain ⟨e', host, hmem', rfl⟩ := mem_hostEdits.mp hedit
    exact ⟨e', (hl _ hmem').1, rfl⟩
  have hover : Over (· ∈ r.keys) (hostEdits l) := by
    intro edit hedit
    obtain ⟨e', host, hmem', rfl⟩ := mem_hostEdits.mp hedit
    exact host_keys (hl _ hmem').1 (hl _ hmem').2
  have hedit : ⟨labels, attach e⟩ ∈ hostEdits l := mem_hostEdits.mpr ⟨e, labels, hmem, rfl⟩
  exact build_reaches (fun es => ∀ a ∈ es, a ∈ r.entries)
    (h.faithful hseparate) hover (fun _ ha => (List.not_mem_nil ha).elim)
    (fun edit hedit es hes => by
      obtain ⟨e', he', hupdate⟩ := hattach edit hedit
      rw [hupdate]
      intro a ha
      rcases mem_of_mem_attach ha with ha | rfl
      · exact hes a ha
      · exact he')
    (fun es => e ∈ es) hedit
    (fun es hes => mem_attach_self fun a ha => h.eq_of_position (hes a ha) (hl _ hmem).1)
    (fun edit hedit es _ he => by
      obtain ⟨e', -, hupdate⟩ := hattach edit hedit
      rw [hupdate]
      exact mem_attach_of_mem he)

/-- A walk comes by a route through each row of the route's own keys that takes the request. -/
theorem Sound.candidate_of_takes {r : Router α} (h : r.Sound) (hseparate : Separate r.ruleParams)
    {e : Entry α} (he : e ∈ r.entries) {row : List Key} (hrow : row ∈ (r.compiledOf e).paths)
    {host? : Option (List Key)} (hhost : host? ∈ (r.compiledOf e).hosts) {host path : String}
    {ofPath ofHost : Captures} (hpath : RowTakes row (segmentsOfPath path) ofPath)
    (htakes : HostTakes host host? ofHost) :
    ⟨e, row, host?, ofPath ++ ofHost⟩ ∈ r.candidates host path := by
  obtain ⟨s, l, hs, hleaf, hl, hmem⟩ := h.path_reaches hseparate he hrow hhost
  have hsorted : ∀ path s, Trie.At r.root path s → s.literals.Sorted := by
    intro path s hs
    rw [h.root_eq] at hs
    exact (build_good (fun _ => True) r.over_edits trivial (fun _ _ _ _ => trivial) hs).2.1
  have harrival := arrival_of_at hsorted hs hpath
  rw [hleaf] at harrival
  refine List.mem_flatMap.mpr ⟨_, harrival, ?_⟩
  rw [candidatesAt_extend]
  cases host? with
  | none =>
    rw [show ofHost = [] from htakes, List.append_nil]
    refine List.mem_append_right _ (List.mem_map.mpr ⟨e, ?_, rfl⟩)
    refine (mem_listed_iff fun a ha b hb => ?_).mpr (mem_hostless.mpr hmem)
    exact h.eq_of_position (hl _ (mem_hostless.mp ha)).1 (hl _ (mem_hostless.mp hb)).1
  | some labels =>
    obtain ⟨s', hs', he'⟩ := h.host_reaches hseparate hl hmem
    have hover : Over (fun _ => True) (hostEdits l) := fun _ _ _ _ => trivial
    have hlabels := arrival_of_at (fun path s hs =>
      (build_good (fun _ => True) hover trivial (fun _ _ _ _ => trivial) hs).2.1) hs' htakes
    exact List.mem_append_left _ (List.mem_flatMap.mpr ⟨_, hlabels, List.mem_map.mpr ⟨e, he', rfl⟩⟩)

end Router

end UriRouting

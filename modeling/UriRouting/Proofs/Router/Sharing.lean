import UriRouting.Proofs.Router.Alternatives
import UriRouting.Proofs.Router.Visits
import UriRouting.Proofs.Trie.Sharing
/-!
Routes that share their nodes with others.

A route that is registered after others is put under keys that are there already, with the rules of
those who came first. Yet it is visited for the same requests as on its own: `comesBy_iff` says for
which, by its own keys alone. The one proviso is about rules that compare values with texts, since
parameters that are the same can have different texts.
-/

namespace UriRouting

variable {α : Type}

/-! ## The end of a path -/

/-- The route at a place is shown at the end of a path, with captures of the host. -/
def PathEnd.Shows (n : Nat) (host : String) (ofHost : Captures) (p : PathEnd α) : Prop :=
  (∃ hosts, p.hosts? = some hosts ∧ hosts.Finds (holdsEntry n · = true) (labelsOf host) ofHost) ∨
    (ofHost = [] ∧ holdsEntry n p.entries = true)

section

variable {S : Key → Prop} {l : List (Attachment α)} {n : Nat} {host : String} {ofHost : Captures}

/-- The hosts at the end of a path lead to the route at a place by the labels it is attached at. -/
theorem finds_hosts (hE : Over S (hostEdits l))
    (halike : ∀ e labels, (e, some labels) ∈ l → e.position = n → ∀ k ∈ labels, AlikeTo S k) :
    (∃ hosts, (PathEnd.extend {} l).hosts? = some hosts ∧
      hosts.Finds (holdsEntry n · = true) (labelsOf host) ofHost) ↔
      ∃ e labels, (e, some labels) ∈ l ∧ e.position = n ∧ RowTakes labels (labelsOf host) ofHost := by
  have hempty : ¬ holdsEntry n ([] : List (Entry α)) = true := Bool.false_ne_true
  have hbrings : ∀ e : Entry α, holdsEntry n (attach e []) = true ↔ e.position = n := by
    intro e
    rw [holdsEntry_attach_iff, or_iff_right hempty]
  have hfinds : (∃ hosts, (PathEnd.extend {} l).hosts? = some hosts ∧
      hosts.Finds (holdsEntry n · = true) (labelsOf host) ofHost) ↔
      (Trie.build [] (hostEdits l)).Finds (holdsEntry n · = true) (labelsOf host) ofHost := by
    rw [(extend_spec l).2]
    split
    · next hnil =>
      rw [hnil]
      refine iff_of_false (fun h => ?_) (Trie.not_finds_single hempty)
      obtain ⟨hosts, hhosts, -⟩ := h
      cases hhosts
    · simp only [Option.some.injEq, exists_eq_left']
  rw [hfinds, Trie.finds_build (fun _ => True) hE trivial (fun _ _ _ _ => trivial) hempty ?_ ?_]
  · constructor
    · intro h
      obtain ⟨edit, hedit, hholds, htakes⟩ := h
      obtain ⟨e, labels, hmem, rfl⟩ := mem_hostEdits.mp hedit
      exact ⟨e, labels, hmem, (hbrings e).mp hholds, htakes⟩
    · intro h
      obtain ⟨e, labels, hmem, hposition, htakes⟩ := h
      exact ⟨_, mem_hostEdits.mpr ⟨e, labels, hmem, rfl⟩, (hbrings e).mpr hposition, htakes⟩
  · intro edit hedit es _
    obtain ⟨e, labels, -, rfl⟩ := mem_hostEdits.mp hedit
    rw [holdsEntry_attach_iff, hbrings]
  · intro edit hedit hholds
    obtain ⟨e, labels, hmem, rfl⟩ := mem_hostEdits.mp hedit
    exact halike e labels hmem ((hbrings e).mp hholds)

/-- The route at a place is shown by what is attached for it, at every host or at one that takes the
labels. -/
theorem shows_extend (hE : Over S (hostEdits l))
    (halike : ∀ e labels, (e, some labels) ∈ l → e.position = n → ∀ k ∈ labels, AlikeTo S k) :
    (PathEnd.extend {} l).Shows n host ofHost ↔
      ∃ a ∈ l, a.1.position = n ∧ HostTakes host a.2 ofHost := by
  rw [PathEnd.Shows, finds_hosts hE halike, (extend_spec l).1, holdsEntry_listed_iff]
  constructor
  · intro h
    obtain ⟨e, labels, hmem, hposition, htakes⟩ | ⟨rfl, e, he, hposition⟩ := h
    · exact ⟨(e, some labels), hmem, hposition, htakes⟩
    · exact ⟨(e, none), mem_hostless.mp he, hposition, rfl⟩
  · intro h
    obtain ⟨⟨e, host?⟩, hmem, hposition, htakes⟩ := h
    cases host? with
    | none => exact Or.inr ⟨htakes, e, mem_hostless.mpr hmem, hposition⟩
    | some labels => exact Or.inl ⟨e, labels, hmem, hposition, htakes⟩

end

namespace Router

/-! ## Visits -/

/-- A walk that nothing stops comes by the route at a place with these captures. -/
def ComesBy (r : Router α) (n : Nat) (host path : String) (captures : Captures) : Prop :=
  ∃ c ∈ r.candidates host path, c.entry.position = n ∧ c.captures = captures

theorem comesBy_iff_finds {r : Router α} {n : Nat} {host path : String} {captures : Captures} :
    r.ComesBy n host path captures ↔ ∃ ofPath ofHost,
      r.root.Finds (PathEnd.Shows n host ofHost) (segmentsOfPath path) ofPath ∧
        captures = ofPath ++ ofHost := by
  constructor
  · intro h
    obtain ⟨c, hc, hposition, rfl⟩ := h
    obtain ⟨a, ha, hc⟩ := List.mem_flatMap.mp hc
    rw [candidatesAt, List.mem_append] at hc
    obtain hc | hc := hc
    · obtain ⟨b, hb, hc⟩ := List.mem_flatMap.mp hc
      obtain ⟨e, he, rfl⟩ := List.mem_map.mp hc
      split at hb
      · cases hb
      · next hosts hhosts =>
        refine ⟨a.captures, b.captures, ⟨a, ha, Or.inl ⟨hosts, hhosts, b, hb, ?_, rfl⟩, rfl⟩, rfl⟩
        exact holdsEntry_iff.mpr ⟨e, he, hposition⟩
    · obtain ⟨e, he, rfl⟩ := List.mem_map.mp hc
      refine ⟨a.captures, [], ⟨a, ha, Or.inr ⟨rfl, ?_⟩, rfl⟩, (List.append_nil _).symm⟩
      exact holdsEntry_iff.mpr ⟨e, he, hposition⟩
  · intro h
    obtain ⟨_, ofHost, ⟨a, ha, hshows, rfl⟩, rfl⟩ := h
    obtain ⟨hosts, hhosts, b, hb, hend, rfl⟩ | ⟨rfl, hend⟩ := hshows
    · obtain ⟨e, he, hposition⟩ := holdsEntry_iff.mp hend
      refine ⟨⟨e, a.row, some b.row, a.captures ++ b.captures⟩, ?_, hposition, rfl⟩
      refine List.mem_flatMap.mpr ⟨a, ha, List.mem_append_left _ (List.mem_flatMap.mpr ⟨b, ?_, ?_⟩)⟩
      · rw [hhosts]
        exact hb
      · exact List.mem_map.mpr ⟨e, he, rfl⟩
    · obtain ⟨e, he, hposition⟩ := holdsEntry_iff.mp hend
      refine ⟨⟨e, a.row, none, a.captures⟩, ?_, hposition, (List.append_nil _).symm⟩
      exact List.mem_flatMap.mpr ⟨a, ha, List.mem_append_right _ (List.mem_map.mpr ⟨e, he, rfl⟩)⟩

/-- An entry takes a request by rows of its own keys. -/
def Takes (r : Router α) (e : Entry α) (host path : String) (captures : Captures) : Prop :=
  ∃ row ∈ (r.compiledOf e).paths, ∃ host? ∈ (r.compiledOf e).hosts, ∃ ofPath ofHost,
    RowTakes row (segmentsOfPath path) ofPath ∧ HostTakes host host? ofHost ∧ captures = ofPath ++ ofHost

/-- An end of a path, after some entries were attached there. -/
def IsEnd (r : Router α) (p : PathEnd α) : Prop :=
  ∃ l : List (Attachment α), (∀ a ∈ l, r.IsAttachment a) ∧ p = PathEnd.extend {} l

theorem isEnd_empty (r : Router α) : r.IsEnd {} := ⟨[], fun _ ha => (List.not_mem_nil ha).elim, rfl⟩

theorem mem_edits {r : Router α} {edit : Edit (PathEnd α)} : edit ∈ r.edits ↔
    ∃ e ∈ r.entries, ∃ row ∈ (r.compiledOf e).paths,
      edit = ⟨row, fun p => p.extend ((r.compiledOf e).hosts.map fun host? => (e, host?))⟩ := by
  simp only [edits, editsOf, List.mem_flatMap, List.mem_map, eq_comm]

/-- Attaching an entry at an end of a path shows the entry, if one of its hosts takes the labels. -/
theorem IsEnd.extend {r : Router α} {p : PathEnd α} (h : r.IsEnd p) {e : Entry α} (he : e ∈ r.entries)
    {n : Nat} (halike : ∀ e ∈ r.entries, e.position = n → ∀ k ∈ r.keysOf e, AlikeTo (· ∈ r.keys) k) :
    r.IsEnd (p.extend ((r.compiledOf e).hosts.map fun host? => (e, host?))) ∧
      ∀ host ofHost,
        ((p.extend ((r.compiledOf e).hosts.map fun host? => (e, host?))).Shows n host ofHost ↔
          p.Shows n host ofHost ∨
            e.position = n ∧ ∃ host? ∈ (r.compiledOf e).hosts, HostTakes host host? ofHost) := by
  obtain ⟨l, hl, rfl⟩ := h
  have hshows : ∀ l : List (Attachment α), (∀ a ∈ l, r.IsAttachment a) → ∀ host ofHost,
      ((PathEnd.extend {} l).Shows n host ofHost ↔
        ∃ a ∈ l, a.1.position = n ∧ HostTakes host a.2 ofHost) := by
    intro l hl host ofHost
    have hE : Over (· ∈ r.keys) (hostEdits l) := by
      intro edit hedit
      obtain ⟨e', labels, hmem, rfl⟩ := mem_hostEdits.mp hedit
      exact host_keys (hl _ hmem).1 (hl _ hmem).2
    refine shows_extend hE fun e' labels hmem hposition k hk => ?_
    obtain ⟨he', hlabels⟩ := hl _ hmem
    exact halike e' he' hposition k (mem_keysOf_host hlabels k hk)
  have hnew : ∀ a ∈ l ++ (r.compiledOf e).hosts.map fun host? => (e, host?), r.IsAttachment a := by
    refine List.forall_mem_append.mpr ⟨hl, fun a ha => ?_⟩
    obtain ⟨host?, hhost, rfl⟩ := List.mem_map.mp ha
    exact ⟨he, hhost⟩
  have hextend : (PathEnd.extend {} l).extend ((r.compiledOf e).hosts.map fun host? => (e, host?))
      = PathEnd.extend {} (l ++ (r.compiledOf e).hosts.map fun host? => (e, host?)) :=
    (List.foldl_append ..).symm
  rw [hextend]
  refine ⟨⟨_, hnew, rfl⟩, fun host ofHost => ?_⟩
  rw [hshows _ hnew, hshows _ hl]
  simp only [List.mem_append, List.mem_map, or_and_right, exists_or, exists_exists_and_eq_and]
  refine or_congr_right ?_
  constructor
  · intro h
    obtain ⟨host?, hhost, hposition, htakes⟩ := h
    exact ⟨hposition, host?, hhost, htakes⟩
  · intro h
    obtain ⟨hposition, host?, hhost, htakes⟩ := h
    exact ⟨host?, hhost, hposition, htakes⟩

theorem not_shows_empty (n : Nat) (host : String) (ofHost : Captures) :
    ¬ PathEnd.Shows n host ofHost ({} : PathEnd α) := by
  intro h
  obtain ⟨hosts, hhosts, -⟩ | ⟨-, hholds⟩ := h
  · cases hhosts
  · cases hholds

/-- The root leads to an entry along the rows of its own paths, at the hosts it is attached at. -/
theorem Sound.finds_iff {r : Router α} (h : r.Sound) {e : Entry α} (he : e ∈ r.entries)
    (halike : ∀ k ∈ r.keysOf e, AlikeTo (· ∈ r.keys) k) {host path : String}
    {ofPath ofHost : Captures} :
    r.root.Finds (PathEnd.Shows e.position host ofHost) (segmentsOfPath path) ofPath ↔
      ∃ row ∈ (r.compiledOf e).paths, ∃ host? ∈ (r.compiledOf e).hosts,
        RowTakes row (segmentsOfPath path) ofPath ∧ HostTakes host host? ofHost := by
  have hown : ∀ e' ∈ r.entries, e'.position = e.position →
      ∀ k ∈ r.keysOf e', AlikeTo (· ∈ r.keys) k := by
    intro e' he' hposition
    rw [h.eq_of_position he' he hposition]
    exact halike
  have hnone : ¬ PathEnd.Shows e.position host ofHost ({} : PathEnd α) := not_shows_empty _ _ _
  have hbrings : ∀ e' ∈ r.entries,
      ((PathEnd.extend {} ((r.compiledOf e').hosts.map fun host? => (e', host?))).Shows
          e.position host ofHost ↔
        e'.position = e.position ∧ ∃ host? ∈ (r.compiledOf e').hosts, HostTakes host host? ofHost) := by
    intro e' he'
    rw [(r.isEnd_empty.extend he' hown).2, or_iff_right hnone]
  rw [h.root_eq, Trie.finds_build r.IsEnd r.over_edits r.isEnd_empty ?_ hnone ?_ ?_]
  · constructor
    · intro hfinds
      obtain ⟨edit, hedit, hshows, htakes⟩ := hfinds
      obtain ⟨e', he', row, hrow, rfl⟩ := mem_edits.mp hedit
      obtain ⟨hposition, host?, hhost, hlabels⟩ := (hbrings e' he').mp hshows
      rw [h.eq_of_position he' he hposition] at hrow hhost
      exact ⟨row, hrow, host?, hhost, htakes, hlabels⟩
    · intro htakes
      obtain ⟨row, hrow, host?, hhost, htakes, hlabels⟩ := htakes
      exact ⟨_, mem_edits.mpr ⟨e, he, row, hrow, rfl⟩,
        (hbrings e he).mpr ⟨rfl, host?, hhost, hlabels⟩, htakes⟩
  · intro edit hedit p hp
    obtain ⟨e', he', row, -, rfl⟩ := mem_edits.mp hedit
    exact (hp.extend he' hown).1
  · intro edit hedit p hp
    obtain ⟨e', he', row, -, rfl⟩ := mem_edits.mp hedit
    rw [(hp.extend he' hown).2, hbrings e' he']
  · intro edit hedit hshows k hk
    obtain ⟨e', he', row, hrow, rfl⟩ := mem_edits.mp hedit
    exact hown e' he' ((hbrings e' he').mp hshows).1 k (mem_keysOf_path hrow k hk)

/-- A route is visited for the requests that its own keys take, whatever the other routes are, as long
as its keys are like those that are the same. -/
theorem Sound.comesBy_iff {r : Router α} (h : r.Sound) {e : Entry α} (he : e ∈ r.entries)
    (halike : ∀ k ∈ r.keysOf e, AlikeTo (· ∈ r.keys) k) {host path : String} {captures : Captures} :
    r.ComesBy e.position host path captures ↔ r.Takes e host path captures := by
  simp only [comesBy_iff_finds, h.finds_iff he halike, Takes]
  constructor
  · intro hcomes
    obtain ⟨ofPath, ofHost, ⟨row, hrow, host?, hhost, htakes, hlabels⟩, hcaptures⟩ := hcomes
    exact ⟨row, hrow, host?, hhost, ofPath, ofHost, htakes, hlabels, hcaptures⟩
  · intro htakes
    obtain ⟨row, hrow, host?, hhost, ofPath, ofHost, htakes, hlabels, hcaptures⟩ := htakes
    exact ⟨ofPath, ofHost, ⟨row, hrow, host?, hhost, htakes, hlabels⟩, hcaptures⟩

/-- A survey has come by the route at a place with these captures. -/
def Surveyed (r : Router α) (host path : String) (steps n : Nat) (captures : Captures) : Prop :=
  ∃ e, (e, captures) ∈ (r.survey host path steps).seen ∧ e.position = n

instance (r : Router α) (host path : String) (steps n : Nat) (captures : Captures) :
    Decidable (r.Surveyed host path steps n captures) :=
  decidable_of_iff ((r.survey host path steps).seen.any fun seen =>
      decide (seen.1.position = n) && decide (seen.2 = captures)) <| by
    simp only [List.any_eq_true, Bool.and_eq_true, decide_eq_true_eq, Surveyed]
    constructor
    · intro h
      obtain ⟨seen, hmem, hposition, rfl⟩ := h
      exact ⟨seen.1, hmem, hposition⟩
    · intro h
      obtain ⟨e, hmem, hposition⟩ := h
      exact ⟨(e, captures), hmem, hposition, rfl⟩

theorem surveyed_iff {r : Router α} {host path : String} {steps n : Nat} {captures : Captures}
    (h : (r.survey host path steps).exhausted = false) :
    r.Surveyed host path steps n captures ↔ r.ComesBy n host path captures := by
  rw [Surveyed, survey_seen h]
  constructor
  · intro hseen
    obtain ⟨e, hmem, hposition⟩ := hseen
    obtain ⟨c, hc, heq⟩ := List.mem_map.mp hmem
    cases heq
    exact ⟨c, hc, hposition, rfl⟩
  · intro hcomes
    obtain ⟨c, hc, hposition, rfl⟩ := hcomes
    exact ⟨c.entry, List.mem_map.mpr ⟨c, hc, rfl⟩, hposition⟩

/-! ## Rules that compare values with texts -/

/-- The variables of an entry have the same texts to compare values with as all variables of the router
that are the same. -/
def ListsAlike (r : Router α) (e : Entry α) : Prop :=
  ∀ v ∈ (r.keysOf e).flatMap Key.vars, ∀ w ∈ r.keys.flatMap Key.vars, v.same w = true → v.ListsAlike w

instance (r : Router α) (e : Entry α) : Decidable (r.ListsAlike e) :=
  inferInstanceAs (Decidable (∀ v ∈ (r.keysOf e).flatMap Key.vars, ∀ w ∈ r.keys.flatMap Key.vars,
    v.same w = true → v.ListsAlike w))

theorem Sound.alikeTo {r : Router α} (h : r.Sound) (hfactory : r.factory = .default) {e : Entry α}
    (he : e ∈ r.entries) (hlists : r.ListsAlike e) : ∀ k ∈ r.keysOf e, AlikeTo (· ∈ r.keys) k := by
  intro k hk
  have hmade : ∀ k ∈ r.keys, k.MadeBy .default := hfactory ▸ h.madeBy
  refine alikeTo_of_listsAlike hmade (hmade k (List.mem_flatMap.mpr ⟨e, he, hk⟩)) ?_
  intro v hv k' hk' w hw
  exact hlists v (List.mem_flatMap.mpr ⟨k, hk, hv⟩) w (List.mem_flatMap.mpr ⟨k', hk', hw⟩)

/-! ## Routes on their own -/

/-- What is accepted is registered, and counted where it was not attached before. -/
theorem Accepts.register_attached {r : Router α} {route : Route α} {template : Template}
    {compiled : CompiledTemplate} (h : r.Accepts route template compiled) :
    register route r = .ok
      (RouteTrie.attachAll (r.entryFor route template) compiled.hosts compiled.paths r.root).2
      (r.extended route template compiled) := by
  have hfree : route.name?.filter r.names.contains = none := by
    cases hname : route.name? with
    | none => rfl
    | some name => simp [Option.filter, h.nameFree name hname]
  rw [register_run, compileRoute_run, hfree, h.reads]
  simp only [h.compiles]
  rfl

theorem Accepts.register_eq {r : Router α} {route : Route α} {template : Template}
    {compiled : CompiledTemplate} (h : r.Accepts route template compiled) :
    ∃ attached, register route r = .ok attached (r.extended route template compiled) :=
  ⟨_, h.register_attached⟩

theorem register_eq_registered {r : Router α} {route : Route α} {n : Nat}
    (h : attached? (register route r) = some n) : register route r = .ok n (r.registered route) := by
  obtain ⟨r', hregister⟩ := exists_of_attached? h
  rw [registered, hregister]

/-- Registering leaves the factory and the limits as they are. -/
theorem registered_kept (r : Router α) (route : Route α) :
    (r.registered route).factory = r.factory ∧ (r.registered route).config = r.config := by
  obtain h | ⟨template, compiled, -, h⟩ := r.registered_cases route
  · rw [h]
    exact ⟨rfl, rfl⟩
  · rw [h]
    exact ⟨rfl, rfl⟩

/-- What a router accepts is accepted by an empty one of the same factory and limits. -/
theorem Accepts.onEmpty {r : Router α} {route : Route α} {template : Template}
    {compiled : CompiledTemplate} (h : r.Accepts route template compiled) :
    (empty r.factory r.config : Router α).Accepts route template compiled :=
  ⟨fun _ _ => rfl, h.reads, h.compiles⟩

/-- The keys of a new entry are those of its template. -/
theorem Accepts.keysOf_eq {r : Router α} {route : Route α} {template : Template}
    {compiled : CompiledTemplate} (h : r.Accepts route template compiled) :
    (r.extended route template compiled).keysOf (r.entryFor route template)
      = (compiled.paths ++ compiled.hosts?.getD []).flatten := by
  show r.keysOf (r.entryFor route template) = _
  rw [keysOf, h.compiledOf_eq]

/-- A new entry takes what the rows of its template take. -/
theorem Accepts.takes_iff {r : Router α} {route : Route α} {template : Template}
    {compiled : CompiledTemplate} (h : r.Accepts route template compiled) {host path : String}
    {captures : Captures} :
    (r.extended route template compiled).Takes (r.entryFor route template) host path captures ↔
      ∃ row ∈ compiled.paths, ∃ host? ∈ compiled.hosts, ∃ ofPath ofHost,
        RowTakes row (segmentsOfPath path) ofPath ∧ HostTakes host host? ofHost ∧
          captures = ofPath ++ ofHost := by
  show r.Takes (r.entryFor route template) host path captures ↔ _
  rw [Takes, h.compiledOf_eq]

theorem mem_entries_extended (r : Router α) (route : Route α) (template : Template)
    (compiled : CompiledTemplate) :
    r.entryFor route template ∈ (r.extended route template compiled).entries :=
  List.mem_append_right _ List.mem_cons_self

/-- Among fewer variables the new ones still have the same texts as those that are the same. -/
theorem Accepts.listsAlike_onEmpty {r : Router α} {route : Route α} {template : Template}
    {compiled : CompiledTemplate} (h : r.Accepts route template compiled)
    (hlists : (r.extended route template compiled).ListsAlike (r.entryFor route template)) :
    ((empty r.factory r.config : Router α).extended route template compiled).ListsAlike
      ((empty r.factory r.config).entryFor route template) := by
  intro v hv w hw
  rw [h.onEmpty.keysOf_eq, ← h.keysOf_eq] at hv
  obtain ⟨k, hk, hw⟩ := List.mem_flatMap.mp hw
  obtain ⟨e, he, hk⟩ := List.mem_flatMap.mp hk
  rw [List.mem_singleton.mp he, h.onEmpty.keysOf_eq, ← h.keysOf_eq] at hk
  have hkeys : k ∈ (r.extended route template compiled).keys :=
    List.mem_flatMap.mpr ⟨_, r.mem_entries_extended route template compiled, hk⟩
  exact hlists v hv w (List.mem_flatMap.mpr ⟨k, hkeys, hw⟩)

/-- A new entry is visited for what the rows of its template take. -/
theorem Reachable.comesBy_new {r : Router α} (h : Reachable r) (hfactory : r.factory = .default)
    {route : Route α} {template : Template} {compiled : CompiledTemplate}
    (haccepts : r.Accepts route template compiled)
    (hlists : (r.extended route template compiled).ListsAlike (r.entryFor route template))
    {host path : String} {captures : Captures} :
    (r.extended route template compiled).ComesBy r.size host path captures ↔
      ∃ row ∈ compiled.paths, ∃ host? ∈ compiled.hosts, ∃ ofPath ofHost,
        RowTakes row (segmentsOfPath path) ofPath ∧ HostTakes host host? ofHost ∧
          captures = ofPath ++ ofHost := by
  have hsound : (r.extended route template compiled).Sound := h.sound.extended haccepts
  have hmem := r.mem_entries_extended route template compiled
  rw [← haccepts.takes_iff]
  exact hsound.comesBy_iff hmem (hsound.alikeTo hfactory hmem hlists)

/-- With the default factory, rules whose specifications are the same accept the same values exactly if
they have the same texts to compare values with, which only the negative zero can prevent. So variables
that are the same accept the same values, if that holds check by check. A route that is registered after
others is visited for the same requests, with the same captures, as in a router of its own, if it holds
of its variables and those that are the same. -/
theorem Reachable.shared_as_alone {r : Router α} (h : Reachable r) (hfactory : r.factory = .default) :
    (∀ (a b : RuleSpec) (rule rule' : Rule), a.same b = true →
      r.factory.create a.name a.params = .ok rule → r.factory.create b.name b.params = .ok rule' →
      ((∀ value, rule.accepts value = rule'.accepts value) ↔ a.ListsAlike b)) ∧
    (∀ a b : RuleSpec, a.same b = true → .float (.signed true 0) ∉ a.params →
      .float (.signed true 0) ∉ b.params → a.ListsAlike b) ∧
    (∀ v w : Variable, v.MadeBy r.factory → w.MadeBy r.factory → v.same w = true → v.ListsAlike w →
      ∀ value, v.accepts value = w.accepts value) ∧
    ∀ (route : Route α) (attached : Nat) (r' : Router α), Router.register route r = .ok attached r' →
      (∀ e ∈ r'.entries, e.position = r.size → r'.ListsAlike e) →
      ∃ (number : Nat) (alone : Router α),
        Router.register route (.empty r.factory r.config) = .ok number alone ∧
        ∀ (host path : String) (steps steps' : Nat), (r'.survey host path steps).exhausted = false →
          (alone.survey host path steps').exhausted = false → ∀ captures,
          (r'.Surveyed host path steps r.size captures ↔
            alone.Surveyed host path steps' 0 captures) := by
  refine ⟨?_, fun a b hsame ha hb => RuleSpec.listsAlike_of_same hsame ha hb, ?_,
    fun route attached r' hregister hlists => ?_⟩
  · rw [hfactory]
    exact fun a b rule rule' hsame ha hb => RuleSpec.accepts_eq_iff hsame ha hb
  · rw [hfactory]
    exact fun v w hv hw hsame halike => Variable.accepts_congr hv hw hsame halike
  · obtain ⟨e, hrefused⟩ | ⟨template, compiled, haccepts, haccepted⟩ := register_cases route r
    · rw [hrefused] at hregister
      cases hregister
    · rw [haccepted] at hregister
      cases hregister
      have hempty := haccepts.onEmpty
      obtain ⟨number, halone⟩ := hempty.register_eq
      refine ⟨number, _, halone, fun host path steps steps' hsteps hsteps' captures => ?_⟩
      have hnew := hlists _ (r.mem_entries_extended route template compiled) rfl
      have hlone := haccepts.listsAlike_onEmpty hnew
      rw [surveyed_iff hsteps, surveyed_iff hsteps', h.comesBy_new hfactory haccepts hnew]
      exact ((Reachable.empty r.factory r.config).comesBy_new hfactory hempty hlone).symm

/-- A measure from zero on, which is one of two. The zero has a sign. -/
def measureSpecs (negative : Bool) : List RuleSpec :=
  [⟨"between", [.float (.signed negative 0), .int 9]⟩, ⟨"in", [.int 1, .str "1.5"]⟩]

def measureRoute (negative : Bool) : Route String :=
  (measureSpecs negative).foldl (fun route spec => route.addRule "v" spec)
    (.new [.get] (.ofPath "/:v") "measure")

def measures : Router String := (empty .default {}).registered (measureRoute false)

/-- A measure as a variable of its own. -/
def measure (negative : Bool) : Variable :=
  ⟨"v", (measureSpecs negative).zip
    [.between (.signed negative 0) (Numeric.Binary64.ofInt 9) true, .oneOf ["1", "1.5"]]⟩

theorem shared_as_alone_measures : Reachable measures ∧ measures.factory = .default ∧
    (∀ value, (measure false).accepts value = (measure true).accepts value) ∧
    (measures.registered (measureRoute true)).nodeCount = 2 ∧
    (measures.registered (measureRoute true)).Surveyed "" "/1.5" 10 1 [("v", "1.5")] ∧
    ((empty .default {}).registered (measureRoute true)).Surveyed "" "/1.5" 10 0 [("v", "1.5")] := by
  have hreachable : Reachable measures := by
    unfold measures
    exact (Reachable.empty _ _).register _
  have hkept := (empty .default {} : Router String).registered_kept (measureRoute false)
  obtain ⟨hfactory, hconfig⟩ : measures.factory = .default ∧ measures.config = {} := hkept
  obtain ⟨-, -, hvariables, hroutes⟩ := Reachable.shared_as_alone hreachable hfactory
  have hmade : ∀ negative, (measure negative).MadeBy measures.factory := by
    rw [hfactory]
    intro negative check hcheck
    simp only [measure, measureSpecs, List.zip_cons_cons, List.zip_nil_left, List.mem_cons,
      List.not_mem_nil, or_false] at hcheck
    obtain rfl | rfl := hcheck
    · rfl
    · rfl
  have hregister : register (measureRoute true) measures
      = .ok 1 (measures.registered (measureRoute true)) := register_eq_registered (by decide +kernel)
  have hlists : ∀ e ∈ (measures.registered (measureRoute true)).entries, e.position = measures.size →
      (measures.registered (measureRoute true)).ListsAlike e := by decide +kernel
  obtain ⟨number, alone, halone, hsurveys⟩ := hroutes _ _ _ hregister hlists
  obtain rfl : (empty .default {}).registered (measureRoute true) = alone := by
    rw [hfactory, hconfig] at halone
    rw [registered, halone]
  have hruns : (measures.registered (measureRoute true)).nodeCount = 2 ∧
      ((measures.registered (measureRoute true)).survey "" "/1.5" 10).exhausted = false ∧
      (((empty .default {}).registered (measureRoute true)).survey "" "/1.5" 10).exhausted = false ∧
      measures.size = 1 ∧
      (measures.registered (measureRoute true)).Surveyed "" "/1.5" 10 1 [("v", "1.5")] := by
    decide +kernel
  obtain ⟨hnodes, hshared, hlone, hsize, hsurveyed⟩ := hruns
  rw [hsize] at hsurveys
  exact ⟨hreachable, hfactory,
    hvariables _ _ (hmade false) (hmade true) (by decide +kernel) (by decide +kernel), hnodes, hsurveyed,
    (hsurveys "" "/1.5" 10 10 hshared hlone [("v", "1.5")]).mp hsurveyed⟩

/-! ### Zeros

A zero and its negative are the same, and their texts are not. -/

def zeroRoute (negative : Bool) : Route String :=
  (Route.new [.get] (.ofPath "/:v") "zero").addRule "v" ⟨"in", [.float (.signed negative 0)]⟩

/-- A router for one zero, then also for the other. -/
def bothZeros : Router String :=
  ((empty .default {}).registered (zeroRoute false)).registered (zeroRoute true)

/-- Two variables that are the same can accept different values, and then the second of two routes takes
what the first one should and not what it takes on its own. -/
theorem sharing_mixes_zeros :
    (∃ v w : Variable, v.MadeBy .default ∧ w.MadeBy .default ∧ v.same w = true ∧
      v.accepts "-0" = false ∧ w.accepts "-0" = true) ∧
    Reachable bothZeros ∧
    (((empty .default {}).registered (zeroRoute true)).Surveyed "" "/-0" 10 0 [("v", "-0")] ∧
      ¬ bothZeros.Surveyed "" "/-0" 10 1 [("v", "-0")]) ∧
    ¬ ((empty .default {}).registered (zeroRoute true)).Surveyed "" "/0" 10 0 [("v", "0")] ∧
      bothZeros.Surveyed "" "/0" 10 1 [("v", "0")] := by
  have hreachable : Reachable bothZeros := by
    unfold bothZeros
    exact ((Reachable.empty _ _).register _).register _
  refine ⟨⟨⟨"v", [(⟨"in", [.float (.signed false 0)]⟩, .oneOf ["0"])]⟩,
    ⟨"v", [(⟨"in", [.float (.signed true 0)]⟩, .oneOf ["-0"])]⟩, ?_, ?_, by decide +kernel⟩, hreachable,
    by decide +kernel⟩
  · intro check hcheck
    rw [List.mem_singleton.mp hcheck]
    rfl
  · intro check hcheck
    rw [List.mem_singleton.mp hcheck]
    rfl

end Router

end UriRouting

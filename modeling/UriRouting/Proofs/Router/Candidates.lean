import UriRouting.Proofs.Router.Contents
/-!
The candidates of a request.

A candidate is a route with a row of keys that its path stands for and, if the route is bound to a
host, one for the host. Which candidates take a request can be told from the templates one by one, as
`Candidate.Matches` does. A walk through the trie comes by the same ones, each once, and in the order
of `Before`.
-/

namespace UriRouting

variable {α : Type}

/-- A route with the keys by which a request may reach it, and what they capture. -/
structure Candidate (α : Type) where
  entry : Entry α
  path : List Key
  /-- From the last label on. -/
  host? : Option (List Key)
  captures : Captures

/-- What labels take a host, and what they capture. No labels take every host. -/
def HostTakes (host : String) : Option (List Key) → Captures → Prop
  | none, captures => captures = []
  | some labels, captures => RowTakes labels (labelsOf host) captures

/-- A route takes a host and a path by rows of keys that its own template stands for. What the path
captures comes before what the host captures. -/
structure Candidate.Matches (r : Router α) (host path : String) (c : Candidate α) : Prop where
  registered : c.entry ∈ r.entries
  spelled : ∃ template, Template.ofString c.entry.route.template.source = .ok template ∧
    (r.compilerFor c.entry.route).Spells .path template.path c.path ∧
    (r.compilerFor c.entry.route).SpellsHost template.host? c.host?
  taken : ∃ ofPath ofHost, RowTakes c.path (segmentsOfPath path) ofPath ∧
    HostTakes host c.host? ofHost ∧ c.captures = ofPath ++ ofHost

theorem HostTakes.captures_eq {host : String} {labels : Option (List Key)} {c c' : Captures}
    (h : HostTakes host labels c) (h' : HostTakes host labels c') : c = c' := by
  cases labels with
  | none =>
    rw [show c = [] from h, show c' = [] from h']
  | some row => exact RowTakes.captures_eq h h'

/-- A candidate that takes a request is known by its route and its keys. -/
theorem Candidate.Matches.ext {r : Router α} {host path : String} {c c' : Candidate α}
    (h : c.Matches r host path) (h' : c'.Matches r host path) (hentry : c.entry = c'.entry)
    (hpath : c.path = c'.path) (hhost : c.host? = c'.host?) : c = c' := by
  obtain ⟨ofPath, ofHost, htakes, htakesHost, hcaptures⟩ := h.taken
  obtain ⟨ofPath', ofHost', htakes', htakesHost', hcaptures'⟩ := h'.taken
  obtain ⟨entry, row, labels, captures⟩ := c
  obtain ⟨entry', row', labels', captures'⟩ := c'
  dsimp only at *
  subst hentry hpath hhost
  rw [hcaptures, hcaptures', htakes.captures_eq htakes', htakesHost.captures_eq htakesHost']

/-! ## Candidates of a walk -/

def hostCandidates (a : Arrival (PathEnd α)) (b : Arrival (List (Entry α))) : List (Candidate α) :=
  b.value.map fun e => ⟨e, a.row, some b.row, a.captures ++ b.captures⟩

def candidatesAt (labels : List String) (a : Arrival (PathEnd α)) : List (Candidate α) :=
  ((match a.value.hosts? with
      | none => []
      | some hosts => hosts.arrivals labels).flatMap (hostCandidates a))
    ++ a.value.entries.map fun e => ⟨e, a.row, none, a.captures⟩

def Router.candidates (r : Router α) (host path : String) : List (Candidate α) :=
  (r.root.arrivals (segmentsOfPath path)).flatMap (candidatesAt (labelsOf host))

/-- A trie that was never edited has no candidates, so that there is no need to tell it from none. -/
theorem candidatesAt_extend (labels : List String) (row : List Key) (l : List (Attachment α))
    (captures : Captures) :
    candidatesAt labels ⟨row, PathEnd.extend {} l, captures⟩
      = (((Trie.build [] (hostEdits l)).arrivals labels).flatMap
          (hostCandidates ⟨row, PathEnd.extend {} l, captures⟩))
        ++ (listed (hostless l)).map fun e => ⟨e, row, none, captures⟩ := by
  obtain ⟨hentries, hhosts⟩ := extend_spec l
  rw [candidatesAt, hhosts, hentries]
  congr 1
  split
  · next h =>
    split at h
    · next hnil =>
      rw [hnil]
      cases labels with
      | nil => rfl
      | cons label rest =>
        rw [show Trie.build [] ([] : List (Edit (List (Entry α)))) = .node [] .empty [] from rfl,
          Trie.arrivals, TextIndex.find?_empty]
        rfl
    · cases h
  · next h =>
    split at h
    · cases h
    · cases h
      rfl

/-- The candidates at the end of a path are what is attached there, at every host or at one that
takes the labels. -/
theorem mem_candidatesAt {S : Key → Prop} (hS : Sharp S) {l : List (Attachment α)}
    (hE : Over S (hostEdits l))
    (hl : l.Pairwise fun a b => a.1 = b.1 ∨ a.1.position < b.1.position) {host : String}
    {row : List Key} {captures : Captures} {c : Candidate α} :
    c ∈ candidatesAt (labelsOf host) ⟨row, PathEnd.extend {} l, captures⟩ ↔
      c.path = row ∧ (c.entry, c.host?) ∈ l ∧
        ∃ ofHost, HostTakes host c.host? ofHost ∧ c.captures = captures ++ ofHost := by
  obtain ⟨e, path, host?, more⟩ := c
  rw [candidatesAt_extend, List.mem_append, List.mem_map, List.mem_flatMap]
  constructor
  · intro h
    rcases h with ⟨b, hb, hc⟩ | ⟨e', he', hc⟩
    · obtain ⟨htakes, hreached, hvalue⟩ := (mem_arrivals_build [] hS hE).mp hb
      obtain ⟨e', he', hc⟩ := List.mem_map.mp hc
      cases hc
      rw [hvalue, valueAt_hostEdits hS (hreached.keys hE) hE, (listed_spec (ranked_atHost hl b.row)).1,
        mem_atHost] at he'
      exact ⟨rfl, he', b.captures, htakes, rfl⟩
    · cases hc
      rw [(listed_spec (ranked_hostless hl)).1, mem_hostless] at he'
      exact ⟨rfl, he', [], rfl, (List.append_nil _).symm⟩
  · intro h
    obtain ⟨hpath, hmem, ofHost, htakes, hcaptures⟩ := h
    dsimp only at hpath hmem htakes hcaptures
    subst hpath hcaptures
    cases host? with
    | none =>
      rw [show ofHost = [] from htakes, List.append_nil]
      refine Or.inr ⟨e, ?_, rfl⟩
      rw [(listed_spec (ranked_hostless hl)).1, mem_hostless]
      exact hmem
    | some labels =>
      have hedit : ⟨labels, attach e⟩ ∈ hostEdits l := mem_hostEdits.mpr ⟨e, labels, hmem, rfl⟩
      refine Or.inl ⟨⟨labels, valueAt [] labels (hostEdits l), ofHost⟩, ?_, ?_⟩
      · refine (mem_arrivals_build [] hS hE).mpr ⟨htakes, Or.inr ⟨_, hedit, ?_⟩, rfl⟩
        exact List.prefix_rfl
      · refine List.mem_map.mpr ⟨e, ?_, rfl⟩
        rw [valueAt_hostEdits hS (hE _ hedit) hE, (listed_spec (ranked_atHost hl labels)).1, mem_atHost]
        exact hmem

namespace Router

theorem over_hostEdits (r : Router α) (path : List Key) :
    Over (· ∈ r.keys) (hostEdits (r.attachmentsAt path)) := by
  intro edit hedit
  obtain ⟨e, host, hmem, rfl⟩ := mem_hostEdits.mp hedit
  obtain ⟨he, -, hhost⟩ := mem_attachmentsAt.mp hmem
  exact host_keys he hhost

/-- The candidates of a walk are those that the templates of the routes allow. -/
theorem Sound.mem_candidates {r : Router α} (h : r.Sound) (hlawful : Lawful r.ruleParams)
    {host path : String} {c : Candidate α} : c ∈ r.candidates host path ↔ c.Matches r host path := by
  have hS := h.sharp hlawful
  have hE := r.over_edits
  rw [candidates, List.mem_flatMap, h.root_eq]
  constructor
  · intro hc
    obtain ⟨⟨row, value, captures⟩, ha, hc⟩ := hc
    obtain ⟨htakes, hreached, hvalue⟩ := (mem_arrivals_build {} hS hE).mp ha
    dsimp only at htakes hreached hvalue
    rw [hvalue, valueAt_edits hS (hreached.keys hE), mem_candidatesAt hS (r.over_hostEdits row)
      (h.attachmentsAt_pairwise row)] at hc
    obtain ⟨rfl, hmem, ofHost, hhost, hcaptures⟩ := hc
    obtain ⟨he, hpath, hhosts⟩ := mem_attachmentsAt.mp hmem
    obtain ⟨hpaths, hspells⟩ := Compiler.mem_compile (h.compiles _ he)
    exact ⟨he, ⟨_, h.reads _ he, (hpaths _).mp hpath, (hspells _).mp hhosts⟩,
      captures, ofHost, htakes, hhost, hcaptures⟩
  · intro hc
    obtain ⟨he, ⟨template, hread, hspath, hshost⟩, ofPath, ofHost, htakes, hhost, hcaptures⟩ := hc
    have htemplate : c.entry.template = template := by
      have hread' := h.reads _ he
      rw [hread] at hread'
      exact (Except.ok.inj hread').symm
    subst htemplate
    obtain ⟨hpaths, hspells⟩ := Compiler.mem_compile (h.compiles _ he)
    have hpath := (hpaths _).mpr hspath
    have hreached : Reached c.path r.edits := by
      refine Or.inr ⟨_, List.mem_flatMap.mpr ⟨c.entry, he, List.mem_map.mpr ⟨c.path, hpath, rfl⟩⟩, ?_⟩
      exact List.prefix_rfl
    refine ⟨⟨c.path, valueAt {} c.path r.edits, ofPath⟩,
      (mem_arrivals_build {} hS hE).mpr ⟨htakes, hreached, rfl⟩, ?_⟩
    rw [valueAt_edits hS (hreached.keys hE), mem_candidatesAt hS (r.over_hostEdits c.path)
      (h.attachmentsAt_pairwise c.path)]
    exact ⟨rfl, mem_attachmentsAt.mpr ⟨he, hpath, (hspells _).mpr hshost⟩, ofHost, hhost, hcaptures⟩

/-! ## Order -/

def pathRows (r : Router α) : List (List Key) := r.entries.flatMap fun e => (r.compiledOf e).paths

/-- The rows of the hosts at the end of a path, in the order in which they came. -/
noncomputable def hostRows (r : Router α) (path : List Key) : List (List Key) :=
  (r.attachmentsAt path).filterMap Prod.snd

/-- One candidate is visited before another one. -/
inductive Before (r : Router α) : Candidate α → Candidate α → Prop
  /-- The rows of the paths decide first. -/
  | path {a b : Candidate α} (h : RowBefore r.pathRows a.path b.path) : Before r a b
  | bound {a b : Candidate α} {labels : List Key} (hpath : a.path = b.path)
    (ha : a.host? = some labels) (hb : b.host? = none) : Before r a b
  /-- Of two routes for hosts, the rows of the hosts decide. -/
  | host {a b : Candidate α} {labels labels' : List Key} (hpath : a.path = b.path)
    (ha : a.host? = some labels) (hb : b.host? = some labels')
    (h : RowBefore (r.hostRows a.path) labels labels') : Before r a b
  | position {a b : Candidate α} (hpath : a.path = b.path) (hhost : a.host? = b.host?)
    (h : a.entry.position < b.entry.position) : Before r a b

theorem Before.asymm {r : Router α} {a b : Candidate α} (h : r.Before a b) : ¬ r.Before b a := by
  intro h'
  cases h with
  | path h =>
    cases h' with
    | path h' => exact h.asymm h'
    | bound hpath _ _ => exact RowBefore.irrefl _ (hpath ▸ h)
    | host hpath _ _ _ => exact RowBefore.irrefl _ (hpath ▸ h)
    | position hpath _ _ => exact RowBefore.irrefl _ (hpath ▸ h)
  | bound hpath ha hb =>
    cases h' with
    | path h' => exact RowBefore.irrefl _ (hpath ▸ h')
    | bound _ hb' _ => exact nomatch hb.symm.trans hb'
    | host _ hb' _ _ => exact nomatch hb.symm.trans hb'
    | position _ hhost _ => exact nomatch hb.symm.trans (hhost.trans ha)
  | host hpath ha hb h =>
    cases h' with
    | path h' => exact RowBefore.irrefl _ (hpath ▸ h')
    | bound _ _ ha' => exact nomatch ha.symm.trans ha'
    | host _ hb' ha' h' =>
      cases hb.symm.trans hb'
      cases ha.symm.trans ha'
      rw [hpath] at h
      exact h.asymm h'
    | position _ hhost _ =>
      cases hb.symm.trans (hhost.trans ha)
      exact RowBefore.irrefl _ h
  | position hpath hhost h =>
    cases h' with
    | path h' => exact RowBefore.irrefl _ (hpath ▸ h')
    | bound _ hb ha => exact nomatch ha.symm.trans (hhost.trans hb)
    | host _ hb ha h' =>
      cases ha.symm.trans (hhost.trans hb)
      exact RowBefore.irrefl _ h'
    | position _ _ h' => exact Nat.lt_asymm h h'

theorem rowsOf_edits (r : Router α) : rowsOf r.edits = r.pathRows := by
  unfold rowsOf edits pathRows
  rw [List.map_flatMap]
  congr 1
  funext e
  rw [editsOf, List.map_map]
  exact List.map_id _

theorem rowsOf_hostEdits (r : Router α) (path : List Key) :
    rowsOf (hostEdits (r.attachmentsAt path)) = r.hostRows path := by
  unfold rowsOf hostEdits hostRows
  rw [List.map_filterMap]
  congr 1
  funext a
  obtain ⟨e, host?⟩ := a
  cases host? <;> rfl

theorem Sound.candidatesAt_pairwise {r : Router α} (h : r.Sound) (hlawful : Lawful r.ruleParams)
    (labels : List String) (row : List Key) (captures : Captures) :
    (candidatesAt labels ⟨row, PathEnd.extend {} (r.attachmentsAt row), captures⟩).Pairwise r.Before := by
  have hS := h.sharp hlawful
  have hE := r.over_hostEdits row
  have hl := h.attachmentsAt_pairwise row
  rw [candidatesAt_extend]
  refine List.pairwise_append.mpr ⟨List.pairwise_flatMap.mpr ⟨fun b hb => ?_, ?_⟩, ?_, ?_⟩
  · obtain ⟨-, hreached, hvalue⟩ := (mem_arrivals_build [] hS hE).mp hb
    rw [hostCandidates, hvalue, valueAt_hostEdits hS (hreached.keys hE) hE]
    refine List.pairwise_map.mpr ((listed_spec (ranked_atHost hl b.row)).2.imp fun hlt => ?_)
    exact .position rfl rfl hlt
  · refine (arrivals_build_pairwise [] hS hE labels).imp fun hbefore c hc c' hc' => ?_
    obtain ⟨e, -, rfl⟩ := List.mem_map.mp hc
    obtain ⟨e', -, rfl⟩ := List.mem_map.mp hc'
    rw [rowsOf_hostEdits] at hbefore
    exact .host rfl rfl rfl hbefore
  · refine List.pairwise_map.mpr ((listed_spec (ranked_hostless hl)).2.imp fun hlt => ?_)
    exact .position rfl rfl hlt
  · intro c hc c' hc'
    obtain ⟨b, -, hc⟩ := List.mem_flatMap.mp hc
    obtain ⟨e, -, rfl⟩ := List.mem_map.mp hc
    obtain ⟨e', -, rfl⟩ := List.mem_map.mp hc'
    exact .bound rfl rfl rfl

theorem Sound.candidates_pairwise {r : Router α} (h : r.Sound) (hlawful : Lawful r.ruleParams)
    (host path : String) : (r.candidates host path).Pairwise r.Before := by
  have hS := h.sharp hlawful
  have hE := r.over_edits
  have hpath : ∀ {labels : List String} {a : Arrival (PathEnd α)} {c : Candidate α},
      c ∈ candidatesAt labels a → c.path = a.row := by
    intro labels a c hc
    rcases List.mem_append.mp hc with hc | hc
    · obtain ⟨b, -, hc⟩ := List.mem_flatMap.mp hc
      obtain ⟨e, -, rfl⟩ := List.mem_map.mp hc
      rfl
    · obtain ⟨e, -, rfl⟩ := List.mem_map.mp hc
      rfl
  unfold candidates
  rw [h.root_eq]
  refine List.pairwise_flatMap.mpr ⟨fun a ha => ?_, ?_⟩
  · obtain ⟨-, hreached, hvalue⟩ := (mem_arrivals_build {} hS hE).mp ha
    obtain ⟨row, value, captures⟩ := a
    dsimp only at hreached hvalue
    rw [hvalue, valueAt_edits hS (hreached.keys hE)]
    exact h.candidatesAt_pairwise hlawful _ _ _
  · have horder := arrivals_build_pairwise ({} : PathEnd α) hS hE (segmentsOfPath path)
    refine horder.imp fun hbefore c hc c' hc' => ?_
    rw [rowsOf_edits, ← hpath hc, ← hpath hc'] at hbefore
    exact .path hbefore

theorem Sound.candidates_nodup {r : Router α} (h : r.Sound) (hlawful : Lawful r.ruleParams)
    (host path : String) : (r.candidates host path).Nodup := by
  refine (h.candidates_pairwise hlawful host path).imp fun hbefore => ?_
  intro h
  subst h
  exact hbefore.asymm hbefore

end Router

end UriRouting

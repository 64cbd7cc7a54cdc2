import UriRouting.Proofs.Router.Outcome
import UriRouting.Proofs.Router.Shape
import UriRouting.Proofs.Trie.Counting
/-!
What the order of registration decides.

The nodes of a router and the routes that a request reaches depend on which templates were registered,
not on when: `Sound.nodeCount_eq` counts the nodes from the rows of keys alone, and the candidates of a
request are those that the templates allow. Only which of several routes comes first is left to the
order.
-/

namespace UriRouting

variable {α : Type}

/-! ## The same answers -/

/-- Two lists of visited routes show the same routes with the same captures. -/
def SameVisits (visits visits' : List (Visited α)) : Prop :=
  ∀ route captures, (∃ e, (e, captures) ∈ visits ∧ e.route = route) ↔
    ∃ e, (e, captures) ∈ visits' ∧ e.route = route

section

variable {visits visits' : List (Visited α)}

/-- What is said of the route and the captures alone holds of the same visits. -/
theorem SameVisits.exists_iff (h : SameVisits visits visits') (P : Route α → Captures → Prop) :
    (∃ v ∈ visits, P v.1.route v.2) ↔ ∃ v ∈ visits', P v.1.route v.2 := by
  constructor
  · intro hP
    obtain ⟨⟨e, captures⟩, hv, hP⟩ := hP
    obtain ⟨e', hv', hroute⟩ := (h e.route captures).mp ⟨e, hv, rfl⟩
    exact ⟨(e', captures), hv', by rw [hroute]; exact hP⟩
  · intro hP
    obtain ⟨⟨e, captures⟩, hv, hP⟩ := hP
    obtain ⟨e', hv', hroute⟩ := (h e.route captures).mpr ⟨e, hv, rfl⟩
    exact ⟨(e', captures), hv', by rw [hroute]; exact hP⟩

/-- Which answer a settled search gives, and with which methods. -/
theorem Settled.result_iff {req : Request} {v : Verdict α} (h : Settled req visits [] v) :
    (v.result.methodIsAllowed? = some true ↔ ∃ w ∈ visits, req.accepts w = true) ∧
      (v.result.methodIsAllowed? = none ↔ (¬ ∃ w ∈ visits, req.accepts w = true) ∧
        ¬ ∃ m, m ∈ req.otherMethods visits) ∧
      ∀ m, m ∈ v.result.allowedMethods ↔ (¬ ∃ w ∈ visits, req.accepts w = true) ∧
        m ∈ req.otherMethods visits := by
  have hfind : (visits.find? req.accepts).isSome = true ↔ ∃ w ∈ visits, req.accepts w = true :=
    List.find?_isSome
  rw [Verdict.result, h.found]
  cases hvisit : visits.find? req.accepts with
  | some w =>
    have hsome : ∃ w ∈ visits, req.accepts w = true := by
      rw [← hfind, hvisit]
      rfl
    simp [MatchResult.methodIsAllowed?, MatchResult.allowedMethods, hsome]
  | none =>
    have hnone : ¬ ∃ w ∈ visits, req.accepts w = true := by
      rw [← hfind, hvisit]
      exact Bool.false_ne_true
    have hallowed : v.allowed = (req.otherMethods visits).eraseDups := by
      rw [h.allowed hvisit]
      exact Method.union_eraseDups [] _
    have hmem : ∀ m, m ∈ v.allowed ↔ m ∈ req.otherMethods visits := by
      intro m
      rw [hallowed, List.mem_eraseDups]
    dsimp only
    rw [MatchResult.ofAllowed]
    cases hmethods : v.allowed with
    | nil =>
      rw [hmethods] at hmem
      simp [MatchResult.methodIsAllowed?, MatchResult.allowedMethods, hnone, ← hmem]
    | cons m rest =>
      rw [hmethods] at hmem
      simp [MatchResult.methodIsAllowed?, MatchResult.allowedMethods, hnone, ← hmem]

/-- Searches that settle on the same visits give the same answer, except for which route is found. -/
theorem Settled.same_answer {req : Request} {v v' : Verdict α} (h : Settled req visits [] v)
    (h' : Settled req visits' [] v') (hsame : SameVisits visits visits') :
    v.result.methodIsAllowed? = v'.result.methodIsAllowed? ∧
      ∀ m, m ∈ v.result.allowedMethods ↔ m ∈ v'.result.allowedMethods := by
  have haccepts : (∃ w ∈ visits, req.accepts w = true) ↔ ∃ w ∈ visits', req.accepts w = true :=
    hsame.exists_iff fun route captures =>
      (route.allows req.method && route.constraintsPass (req.context captures)) = true
  have hothers : ∀ m, m ∈ req.otherMethods visits ↔ m ∈ req.otherMethods visits' := by
    intro m
    rw [Request.mem_otherMethods, Request.mem_otherMethods]
    exact hsame.exists_iff fun route _ => route.allows req.method = false ∧ m ∈ route.methods
  obtain ⟨hfound, hnone, hmethods⟩ := h.result_iff
  obtain ⟨hfound', hnone', hmethods'⟩ := h'.result_iff
  simp only [haccepts, hothers] at hfound hnone hmethods
  refine ⟨?_, fun m => (hmethods m).trans (hmethods' m).symm⟩
  rw [← hfound'] at hfound
  rw [← hnone'] at hnone
  cases hv : v.result.methodIsAllowed? with
  | none => exact (hnone.mp hv).symm
  | some allowed =>
    cases allowed with
    | true => exact (hfound.mp hv).symm
    | false =>
      rw [hv] at hfound hnone
      cases hv' : v'.result.methodIsAllowed? with
      | none => cases hnone.mpr hv'
      | some allowed' =>
        cases allowed' with
        | true => cases hfound.mpr hv'
        | false => rfl

end

namespace Router

/-! ## Counting nodes -/

theorem mem_pathRows {r : Router α} {path : List Key} :
    path ∈ r.pathRows ↔ ∃ e ∈ r.entries, path ∈ (r.compiledOf e).paths := List.mem_flatMap

theorem mem_hostRows {r : Router α} {path labels : List Key} :
    labels ∈ r.hostRows path ↔ ∃ e ∈ r.entries,
      path ∈ (r.compiledOf e).paths ∧ some labels ∈ (r.compiledOf e).hosts := by
  unfold hostRows
  rw [List.mem_filterMap]
  constructor
  · intro h
    obtain ⟨⟨e, host?⟩, ha, rfl⟩ := h
    exact ⟨e, mem_attachmentsAt.mp ha⟩
  · intro h
    obtain ⟨e, h⟩ := h
    exact ⟨(e, some labels), mem_attachmentsAt.mpr h, rfl⟩

open Classical in
/-- The rows of keys of paths at whose end a route is bound to some host. -/
noncomputable def boundPaths (r : Router α) : Finset (List Key) :=
  (r.entries.flatMap fun e =>
    if (r.compiledOf e).hosts?.isSome then (r.compiledOf e).paths else []).toFinset

theorem mem_boundPaths {r : Router α} {path : List Key} :
    path ∈ r.boundPaths ↔
      ∃ e ∈ r.entries, path ∈ (r.compiledOf e).paths ∧ (r.compiledOf e).hosts?.isSome = true := by
  classical
  unfold boundPaths
  rw [List.mem_toFinset, List.mem_flatMap]
  refine exists_congr fun e => and_congr_right fun _ => ?_
  cases (r.compiledOf e).hosts?.isSome <;> simp

theorem isSome_iff_mem_hosts {t : CompiledTemplate} (hne : t.hosts ≠ []) :
    t.hosts?.isSome = true ↔ ∃ labels, some labels ∈ t.hosts := by
  cases hhosts : t.hosts? with
  | none => simp [CompiledTemplate.hosts, hhosts]
  | some hosts =>
    have heq : t.hosts = hosts.map some := by rw [CompiledTemplate.hosts, hhosts]
    rw [heq] at hne ⊢
    obtain ⟨host?, hhost⟩ := List.exists_mem_of_ne_nil _ hne
    obtain ⟨labels, hlabels, -⟩ := List.mem_map.mp hhost
    exact iff_of_true rfl ⟨labels, List.mem_map_of_mem hlabels⟩

open Classical in
/-- At the end of a path hangs a trie of hosts if a route there is bound to one. -/
theorem Sound.hostNodes_eq {r : Router α} (h : r.Sound) (hlawful : Lawful r.ruleParams)
    (path : List Key) : (PathEnd.extend {} (r.attachmentsAt path)).hostNodes =
      if path ∈ r.boundPaths then 1 + (starts (r.hostRows path)).card else 0 := by
  have hS := h.sharp hlawful
  have hbound : path ∈ r.boundPaths ↔ hostEdits (r.attachmentsAt path) ≠ [] := by
    rw [mem_boundPaths]
    constructor
    · intro hpath
      obtain ⟨e, he, hpath, hsome⟩ := hpath
      obtain ⟨labels, hlabels⟩ :=
        (isSome_iff_mem_hosts (Compiler.hosts_ne_nil (h.compiles e he))).mp hsome
      exact List.ne_nil_of_mem
        (mem_hostEdits.mpr ⟨e, labels, mem_attachmentsAt.mpr ⟨he, hpath, hlabels⟩, rfl⟩)
    · intro hne
      obtain ⟨edit, hedit⟩ := List.exists_mem_of_ne_nil _ hne
      obtain ⟨e, labels, hmem, -⟩ := mem_hostEdits.mp hedit
      obtain ⟨he, hpath, hlabels⟩ := mem_attachmentsAt.mp hmem
      exact ⟨e, he, hpath,
        (isSome_iff_mem_hosts (Compiler.hosts_ne_nil (h.compiles e he))).mpr ⟨labels, hlabels⟩⟩
  rw [PathEnd.hostNodes, (extend_spec _).2]
  by_cases hnil : hostEdits (r.attachmentsAt path) = []
  · rw [if_pos hnil, if_neg fun hpath => hbound.mp hpath hnil]
  · rw [if_neg hnil, if_pos (hbound.mpr hnil)]
    show (Trie.build [] _).nodeCount _ = _
    rw [nodeCount_build [] _ hS (r.over_hostEdits path), rowsOf_hostEdits, Finset.sum_const_zero,
      Nat.add_zero]

/-- The nodes of a router: the root, one for each start of a row of a path, and for each path that a
route for some host ends at, the root of the hosts there and one for each start of their rows. -/
theorem Sound.nodeCount_eq {r : Router α} (h : r.Sound) (hlawful : Lawful r.ruleParams) :
    r.nodeCount = 1 + (starts r.pathRows).card +
      ∑ path ∈ r.boundPaths, (1 + (starts (r.hostRows path)).card) := by
  classical
  have hS := h.sharp hlawful
  have hsubset : r.boundPaths ⊆ Insert.insert [] (starts r.pathRows) := by
    intro path hpath
    obtain ⟨e, he, hpath, -⟩ := mem_boundPaths.mp hpath
    rw [Finset.mem_insert, mem_starts]
    by_cases hnil : path = []
    · exact Or.inl hnil
    · exact Or.inr ⟨hnil, path, mem_pathRows.mpr ⟨e, he, hpath⟩, List.prefix_rfl⟩
  rw [nodeCount, h.root_eq, nodeCount_build {} _ hS r.over_edits, rowsOf_edits]
  congr 1
  calc ∑ path ∈ Insert.insert [] (starts r.pathRows), (valueAt {} path r.edits).hostNodes
      = ∑ path ∈ Insert.insert [] (starts r.pathRows),
          if path ∈ r.boundPaths then 1 + (starts (r.hostRows path)).card else 0 := by
        refine Finset.sum_congr rfl fun path hpath => ?_
        rw [← r.rowsOf_edits, ← reached_iff_mem_starts] at hpath
        rw [valueAt_edits hS (hpath.keys r.over_edits), h.hostNodes_eq hlawful]
    _ = ∑ path ∈ r.boundPaths,
          if path ∈ r.boundPaths then 1 + (starts (r.hostRows path)).card else 0 :=
        (Finset.sum_subset hsubset fun path _ hpath => if_neg hpath).symm
    _ = _ := Finset.sum_congr rfl fun path hpath => if_pos hpath

/-! ## The same templates -/

/-- Two routers have the same compiled templates, perhaps in another order or number. -/
def SameTemplates (r r' : Router α) : Prop :=
  ∀ t, (∃ e ∈ r.entries, r.compiledOf e = t) ↔ ∃ e ∈ r'.entries, r'.compiledOf e = t

section

variable {r r' : Router α}

theorem SameTemplates.exists_iff (h : SameTemplates r r') (P : CompiledTemplate → Prop) :
    (∃ e ∈ r.entries, P (r.compiledOf e)) ↔ ∃ e ∈ r'.entries, P (r'.compiledOf e) := by
  constructor
  · intro hP
    obtain ⟨e, he, hP⟩ := hP
    obtain ⟨e', he', heq⟩ := (h _).mp ⟨e, he, rfl⟩
    exact ⟨e', he', heq ▸ hP⟩
  · intro hP
    obtain ⟨e, he, hP⟩ := hP
    obtain ⟨e', he', heq⟩ := (h _).mpr ⟨e, he, rfl⟩
    exact ⟨e', he', heq ▸ hP⟩

theorem SameTemplates.lawful (h : SameTemplates r r') (hlawful : Lawful r.ruleParams) :
    Lawful r'.ruleParams := by
  have hmem : ∀ p, p ∈ r'.ruleParams → p ∈ r.ruleParams := by
    intro p hp
    obtain ⟨k, hk, hp⟩ := List.mem_flatMap.mp hp
    obtain ⟨e, he, hk⟩ := List.mem_flatMap.mp hk
    obtain ⟨e', he', hk'⟩ :=
      (h.exists_iff fun t => k ∈ (t.paths ++ t.hosts?.getD []).flatten).mpr ⟨e, he, hk⟩
    exact List.mem_flatMap.mpr ⟨k, List.mem_flatMap.mpr ⟨e', he', hk'⟩, hp⟩
  exact fun p hp q hq => hlawful p (hmem p hp) q (hmem q hq)

/-- The number of nodes depends on the templates only. -/
theorem SameTemplates.nodeCount_eq (h : SameTemplates r r') (hsound : r.Sound) (hsound' : r'.Sound)
    (hlawful : Lawful r.ruleParams) : r.nodeCount = r'.nodeCount := by
  have hstarts : ∀ {rows rows' : List (List Key)}, (∀ row, row ∈ rows ↔ row ∈ rows') →
      starts rows = starts rows' := by
    intro rows rows' hrows
    ext start
    simp only [mem_starts, hrows]
  have hpaths : starts r.pathRows = starts r'.pathRows := by
    refine hstarts fun row => ?_
    rw [mem_pathRows, mem_pathRows]
    exact h.exists_iff fun t => row ∈ t.paths
  have hhosts : ∀ path, starts (r.hostRows path) = starts (r'.hostRows path) := by
    refine fun path => hstarts fun labels => ?_
    rw [mem_hostRows, mem_hostRows]
    exact h.exists_iff fun t => path ∈ t.paths ∧ some labels ∈ t.hosts
  have hbound : r.boundPaths = r'.boundPaths := by
    ext path
    rw [mem_boundPaths, mem_boundPaths]
    exact h.exists_iff fun t => path ∈ t.paths ∧ t.hosts?.isSome = true
  rw [hsound.nodeCount_eq hlawful, hsound'.nodeCount_eq (h.lawful hlawful), hpaths, hbound]
  simp only [hhosts]

/-- Entries whose routes have the same text and the same rules are compiled alike. -/
theorem compiledOf_congr (h : r.Sound) (h' : r'.Sound) (hfactory : r.factory = r'.factory)
    (hconfig : r.config = r'.config) {e e' : Entry α} (he : e ∈ r.entries) (he' : e' ∈ r'.entries)
    (hsource : e.route.template.source = e'.route.template.source)
    (hrules : ∀ name, e.route.rulesFor name = e'.route.rulesFor name) :
    r.compiledOf e = r'.compiledOf e' := by
  have htemplate : e.template = e'.template := by
    have hread := h.reads e he
    rw [hsource, h'.reads e' he'] at hread
    exact (Except.ok.inj hread).symm
  have hcompiler : r.compilerFor e.route = r'.compilerFor e'.route := by
    rw [compilerFor, compilerFor, hfactory, hconfig, show e.route.rulesFor = e'.route.rulesFor from
      funext hrules]
  rw [compiledOf, compiledOf, hcompiler, htemplate]

end

/-! ## The same routes -/

/-- Two routers have the same routes, perhaps in another order or number. -/
structure SameRoutes (r r' : Router α) : Prop where
  factory : r.factory = r'.factory
  config : r.config = r'.config
  routes : ∀ route, (∃ e ∈ r.entries, e.route = route) ↔ ∃ e ∈ r'.entries, e.route = route

section

variable {r r' : Router α}

theorem SameRoutes.symm (h : SameRoutes r r') : SameRoutes r' r :=
  ⟨h.factory.symm, h.config.symm, fun route => (h.routes route).symm⟩

theorem SameRoutes.sameTemplates (h : SameRoutes r r') (hsound : r.Sound) (hsound' : r'.Sound) :
    SameTemplates r r' := by
  have hside : ∀ {r r' : Router α}, SameRoutes r r' → r.Sound → r'.Sound → ∀ t,
      (∃ e ∈ r.entries, r.compiledOf e = t) → ∃ e ∈ r'.entries, r'.compiledOf e = t := by
    intro r r' h hsound hsound' t ht
    obtain ⟨e, he, rfl⟩ := ht
    obtain ⟨e', he', hroute⟩ := (h.routes e.route).mp ⟨e, he, rfl⟩
    exact ⟨e', he', compiledOf_congr hsound' hsound h.factory.symm h.config.symm he' he
      (by rw [hroute]) fun name => by rw [hroute]⟩
  exact fun t => ⟨hside h hsound hsound' t, hside h.symm hsound' hsound t⟩

/-- A candidate of one router is, up to its place, one of the other. -/
theorem SameRoutes.exists_matches (h : SameRoutes r r') {host path : String} {c : Candidate α}
    (hc : c.Matches r host path) :
    ∃ c' : Candidate α, c'.Matches r' host path ∧ c'.entry.route = c.entry.route ∧
      c'.captures = c.captures := by
  obtain ⟨hmem, hspelled, htaken⟩ := hc
  obtain ⟨e', he', hroute⟩ := (h.routes c.entry.route).mp ⟨c.entry, hmem, rfl⟩
  refine ⟨{ c with entry := e' }, ⟨he', ?_, htaken⟩, hroute, rfl⟩
  have hcompiler : r'.compilerFor e'.route = r.compilerFor c.entry.route := by
    rw [compilerFor, compilerFor, hroute, h.factory, h.config]
  rw [hroute, ← hroute, hcompiler, hroute]
  exact hspelled

theorem SameRoutes.sameVisits (h : SameRoutes r r') (hsound : r.Sound) (hsound' : r'.Sound)
    (hlawful : Lawful r.ruleParams) (host path : String) :
    SameVisits ((r.candidates host path).map fun c => (c.entry, c.captures))
      ((r'.candidates host path).map fun c => (c.entry, c.captures)) := by
  have hside : ∀ {r r' : Router α}, SameRoutes r r' → r.Sound → r'.Sound → Lawful r.ruleParams →
      Lawful r'.ruleParams → ∀ route captures,
      (∃ e, (e, captures) ∈ (r.candidates host path).map (fun c => (c.entry, c.captures)) ∧
        e.route = route) →
      ∃ e, (e, captures) ∈ (r'.candidates host path).map (fun c => (c.entry, c.captures)) ∧
        e.route = route := by
    intro r r' h hsound hsound' hlawful hlawful' route captures hvisit
    obtain ⟨e, hmem, rfl⟩ := hvisit
    obtain ⟨c, hc, heq⟩ := List.mem_map.mp hmem
    cases heq
    obtain ⟨c', hc', hroute, hcaptures⟩ := h.exists_matches ((hsound.mem_candidates hlawful).mp hc)
    refine ⟨c'.entry, List.mem_map.mpr ⟨c', (hsound'.mem_candidates hlawful').mpr hc', ?_⟩, hroute⟩
    rw [hcaptures]
  have hlawful' := (h.sameTemplates hsound hsound').lawful hlawful
  exact fun route captures => ⟨hside h hsound hsound' hlawful hlawful' route captures,
    hside h.symm hsound' hsound hlawful' hlawful route captures⟩

end

/-! ## Registering in order -/

/-- Routes that are all registered are the last entries of the router. -/
theorem registerAll_ok {r : Router α} {routes : List (Route α)} (hr : Reachable r)
    (h : (r.registerAll routes).2.2 = none) :
    Reachable (r.registerAll routes).1 ∧ (r.registerAll routes).1.factory = r.factory ∧
      (r.registerAll routes).1.config = r.config ∧
      (r.registerAll routes).1.entries.map Entry.route = r.entries.map Entry.route ++ routes := by
  induction routes generalizing r with
  | nil => exact ⟨hr, rfl, rfl, (List.append_nil _).symm⟩
  | cons route rest ih =>
    have hregistered := Reachable.register hr route
    rcases register_cases route r with ⟨e, hrun⟩ | ⟨template, compiled, -, hrun⟩
    · rw [registerAll, hrun] at h
      cases h
    · rw [registerAll, hrun] at h ⊢
      rw [registered, hrun] at hregistered
      obtain ⟨hreachable, hfactory, hconfig, hentries⟩ := ih hregistered h
      refine ⟨hreachable, hfactory, hconfig, hentries.trans ?_⟩
      show (r.entries ++ [_]).map Entry.route ++ rest = _
      rw [List.map_append, List.append_assoc]
      rfl

/-- In whatever order routes are registered that are all accepted, the routers have the same number of
nodes, a request reaches the same routes with the same captures, and it gets the same answer, except for
which of the routes is found. The number of nodes is that of the starts of rows of keys, so that a
template that is registered again adds none. -/
theorem order_breaks_ties {factory : RuleFactory} {config : Config} {routes routes' : List (Route α)}
    (hperm : routes.Perm routes') {r r' : Router α} {counts counts' : List Nat}
    (hr : (empty factory config).registerAll routes = (r, counts, none))
    (hr' : (empty factory config).registerAll routes' = (r', counts', none))
    (hplain : ∀ p ∈ r.ruleParams, p.isPlain = true) :
    r.nodeCount = r'.nodeCount ∧
      (∀ host path steps steps', (r.survey host path steps).exhausted = false →
        (r'.survey host path steps').exhausted = false →
        SameVisits (r.survey host path steps).seen (r'.survey host path steps').seen) ∧
      (∀ req, (r.find req).exhausted = false → (r'.find req).exhausted = false →
        (r.find req).result.methodIsAllowed? = (r'.find req).result.methodIsAllowed? ∧
          ∀ m, m ∈ (r.find req).result.allowedMethods ↔ m ∈ (r'.find req).result.allowedMethods) ∧
      r.nodeCount = 1 + (starts r.pathRows).card +
        ∑ path ∈ r.boundPaths, (1 + (starts (r.hostRows path)).card) ∧
      ∀ e ∈ r.entries, ∀ route : Route α, route.template.source = e.route.template.source →
        (∀ name, route.rulesFor name = e.route.rulesFor name) →
        (r.registered route).nodeCount = r.nodeCount := by
  obtain ⟨hreachable, hfactory, hconfig, hroutes⟩ :=
    registerAll_ok (Reachable.empty factory config) (congrArg (·.2.2) hr)
  obtain ⟨hreachable', hfactory', hconfig', hroutes'⟩ :=
    registerAll_ok (Reachable.empty factory config) (congrArg (·.2.2) hr')
  rw [hr] at hreachable hfactory hconfig hroutes
  rw [hr'] at hreachable' hfactory' hconfig' hroutes'
  have hlawful := lawful_of_plain hplain
  have hsound := hreachable.sound
  have hsound' := hreachable'.sound
  have hsame : SameRoutes r r' := by
    refine ⟨hfactory.trans hfactory'.symm, hconfig.trans hconfig'.symm, fun route => ?_⟩
    rw [← List.mem_map, ← List.mem_map, show r.entries.map Entry.route = routes from hroutes,
      show r'.entries.map Entry.route = routes' from hroutes']
    exact hperm.mem_iff
  have hvisits := hsame.sameVisits hsound hsound' hlawful
  refine ⟨(hsame.sameTemplates hsound hsound').nodeCount_eq hsound hsound' hlawful, ?_, ?_,
    hsound.nodeCount_eq hlawful, fun e he route hsource hrules => ?_⟩
  · intro host path steps steps' h h'
    rw [survey_seen h, survey_seen h']
    exact hvisits host path
  · intro req h h'
    obtain ⟨v, hresult, hsettled⟩ := find_settled h
    obtain ⟨v', hresult', hsettled'⟩ := find_settled h'
    rw [hresult, hresult']
    exact hsettled.same_answer hsettled' (hvisits req.host req.path)
  · rcases r.registered_cases route with hrefused | ⟨template, compiled, haccepts, hextended⟩
    · rw [hrefused]
    · rw [hextended]
      have hnew := hsound.extended haccepts
      have hcompiled : ∀ {a : Entry α}, a ∈ r.entries →
          (r.extended route template compiled).compiledOf a = r.compiledOf a := fun _ => rfl
      have hlast : r.entryFor route template ∈ (r.extended route template compiled).entries :=
        List.mem_append_right _ List.mem_cons_self
      have hagain : (r.extended route template compiled).compiledOf (r.entryFor route template)
          = r.compiledOf e := compiledOf_congr hnew hsound rfl rfl hlast he hsource hrules
      refine (SameTemplates.nodeCount_eq (fun t => ?_) hsound hnew hlawful).symm
      constructor
      · intro ht
        obtain ⟨a, ha, rfl⟩ := ht
        exact ⟨a, List.mem_append_left _ ha, hcompiled ha⟩
      · intro ht
        obtain ⟨a, ha, rfl⟩ := ht
        rcases List.mem_append.mp ha with ha | ha
        · exact ⟨a, ha, (hcompiled ha).symm⟩
        · rw [List.mem_singleton.mp ha]
          exact ⟨e, he, hagain.symm⟩

/-- Two routes for one path, of which the first one is found, and one for a host. -/
def rivals : List (Route String) :=
  [.new [.get] (.ofPath "/:id(int)") "number", .new [.get] (.ofPath "/:name[/]") "name",
    .new [.post] ((UriTemplate.ofPath "/:name").withHost "[api.]a.org") "write"]

/-- The router that registers routes in order. -/
def inOrder (routes : List (Route String)) : Router String :=
  ((empty .default {}).registerAll routes).1

theorem inOrder_eq {routes : List (Route String)}
    (h : ((empty .default {}).registerAll routes).2.2 = none) :
    (empty .default {}).registerAll routes
      = (inOrder routes, ((empty .default {}).registerAll routes).2.1, none) :=
  Prod.ext rfl (Prod.ext rfl h)

theorem order_breaks_ties_rivals : rivals.Perm rivals.reverse ∧
    ((empty .default {}).registerAll rivals).2.2 = none ∧
    ((empty .default {}).registerAll rivals.reverse).2.2 = none ∧
    (∀ p ∈ (inOrder rivals).ruleParams, p.isPlain = true) ∧
    (inOrder rivals).nodeCount = 7 ∧ (inOrder rivals.reverse).nodeCount = 7 ∧
    ((inOrder rivals).find ⟨.get, "", "/7", .empty⟩).result.found?.map (·.1.route.action)
      = some "number" ∧
    ((inOrder rivals.reverse).find ⟨.get, "", "/7", .empty⟩).result.found?.map (·.1.route.action)
      = some "name" ∧
    ∀ e ∈ (inOrder rivals).entries,
      ((inOrder rivals).registered { e.route with methods := [.delete] }).nodeCount = 7 := by
  have hruns : ((empty .default {}).registerAll rivals).2.2 = none ∧
      ((empty .default {}).registerAll rivals.reverse).2.2 = none ∧
      (inOrder rivals).ruleParams.all Param.isPlain = true ∧ (inOrder rivals).nodeCount = 7 ∧
      ((inOrder rivals).find ⟨.get, "", "/7", .empty⟩).result.found?.map (·.1.route.action)
        = some "number" ∧
      ((inOrder rivals.reverse).find ⟨.get, "", "/7", .empty⟩).result.found?.map (·.1.route.action)
        = some "name" := by
    decide +kernel
  obtain ⟨haccepted, haccepted', hplain, hcount, hfound, hfound'⟩ := hruns
  obtain ⟨hcounts, -, -, -, hagain⟩ := order_breaks_ties (List.reverse_perm rivals).symm
    (inOrder_eq haccepted) (inOrder_eq haccepted') (List.all_eq_true.mp hplain)
  exact ⟨(List.reverse_perm rivals).symm, haccepted, haccepted', List.all_eq_true.mp hplain, hcount,
    hcounts.symm.trans hcount, hfound, hfound', fun e he =>
      (hagain e he { e.route with methods := [.delete] } rfl fun _ => rfl).trans hcount⟩

end Router
end UriRouting

import UriRouting.Proofs.Router.Budget
import UriRouting.Proofs.Router.RoundTrip
import UriRouting.Proofs.Trie.Names
/-!
The names of what a search captures.

A walk may follow keys of another route, but they have the names of the route's own:
`Sound.candidate_names`. So the names that a path captures are those of one choice of the optional parts
of the template that was found, and distinct if no choice repeats a name. Nothing refuses a template that
does repeat one.
-/

namespace UriRouting

variable {α : Type}

/-! ## Names of a template -/

/-- The names that each choice of the optional parts of the path keeps. -/
def Template.pathNames (t : Template) : List (List String) := keptVars (Part.mapRow Slot.name t.path)

/-- The names that each choice of the optional parts of the host keeps. No host has no names. -/
def Template.hostNames (t : Template) : List (List String) :=
  (t.host?.map fun parts => keptVars (Part.mapRow Slot.name parts)).getD [[]]

theorem Compiler.SpellsHost.names {c : Compiler} {t : Template} {host? : Option (List Key)}
    (h : c.SpellsHost t.host? host?) : ∃ names ∈ t.hostNames, (rowNames (host?.getD [])).Perm names := by
  unfold Template.hostNames
  cases hparts : t.host? with
  | none =>
    rw [hparts] at h
    cases host? with
    | none => exact ⟨[], List.mem_singleton_self [], List.Perm.nil⟩
    | some labels => exact h.elim
  | some parts =>
    rw [hparts] at h
    cases host? with
    | none => exact h.elim
    | some labels =>
      refine ⟨rowNames labels.reverse, Spells.names h, ?_⟩
      exact (List.reverse_perm labels).symm.flatMap_right Key.names

/-! ## Names on the way -/

/-- A route is at a host below the names of its own labels. -/
theorem hostEdits_named (l : List (Attachment α)) :
    (Trie.build [] (hostEdits l)).Named fun names es =>
      ∀ e ∈ es, ∃ labels, (e, some labels) ∈ l ∧ rowNames labels = names := by
  refine Trie.Named.build (fun _ e he => (List.not_mem_nil he).elim) fun edit hedit es hes a ha => ?_
  obtain ⟨e, labels, hmem, rfl⟩ := mem_hostEdits.mp hedit
  rcases mem_of_mem_attach ha with ha | rfl
  · exact hes a ha
  · exact ⟨labels, hmem, rfl⟩

theorem found_of_found? {result : MatchResult α} {e : Entry α} {captures : Captures}
    (h : result.found? = some (e, captures)) : result = .found e captures := by
  cases result with
  | found e' captures' =>
    cases h
    rfl
  | methodNotAllowed allowed => cases h
  | notFound => cases h

namespace Router

/-- What is attached at the end of a path is there below the names of its own path. -/
theorem Sound.path_named {r : Router α} (h : r.Sound) :
    r.root.Named fun names p => ∃ l, p = PathEnd.extend {} l ∧ ∀ a ∈ l, r.IsAttachment a ∧
      ∃ row ∈ (r.compiledOf a.1).paths, rowNames row = names := by
  rw [h.root_eq]
  refine Trie.Named.build (fun _ => ⟨[], rfl, fun _ ha => (List.not_mem_nil ha).elim⟩) ?_
  intro edit hedit p hp
  obtain ⟨e, he, hedit⟩ := List.mem_flatMap.mp hedit
  obtain ⟨row, hrow, rfl⟩ := List.mem_map.mp hedit
  obtain ⟨l, rfl, hl⟩ := hp
  refine ⟨l ++ (r.compiledOf e).hosts.map fun host? => (e, host?), (List.foldl_append ..).symm, ?_⟩
  refine List.forall_mem_append.mpr ⟨hl, fun a ha => ?_⟩
  obtain ⟨host?, hhost, rfl⟩ := List.mem_map.mp ha
  exact ⟨⟨he, hhost⟩, row, hrow, rfl⟩

/-- A walk comes by a route with the names of rows of its own, for the path and for the host. -/
theorem Sound.candidate_names {r : Router α} (h : r.Sound) {host path : String} {c : Candidate α}
    (hc : c ∈ r.candidates host path) : c.entry ∈ r.entries ∧ ∃ ofPath ofHost,
      c.captures = ofPath ++ ofHost ∧ RowTakes c.path (segmentsOfPath path) ofPath ∧
      HostTakes host c.host? ofHost ∧
      (∃ row ∈ (r.compiledOf c.entry).paths, ofPath.map Prod.fst = rowNames row) ∧
      ∃ host? ∈ (r.compiledOf c.entry).hosts, ofHost.map Prod.fst = rowNames (host?.getD []) := by
  obtain ⟨⟨row, value, ofPath⟩, ha, hc⟩ := List.mem_flatMap.mp hc
  obtain ⟨s, hs, hleaf⟩ := at_of_arrival ha
  obtain ⟨l, hl, hattached⟩ := h.path_named row s hs
  have htakes := rowTakes_of_arrival ha
  dsimp only at hleaf htakes
  rw [← hleaf, hl, candidatesAt_extend] at hc
  rcases List.mem_append.mp hc with hc | hc
  · obtain ⟨b, hb, hc⟩ := List.mem_flatMap.mp hc
    obtain ⟨e, he, rfl⟩ := List.mem_map.mp hc
    obtain ⟨s', hs', hleaf'⟩ := at_of_arrival hb
    rw [← hleaf'] at he
    obtain ⟨labels, hmem, hlabels⟩ := hostEdits_named l b.row s' hs' e he
    obtain ⟨⟨hentry, hhost⟩, own, hown, hnames⟩ := hattached _ hmem
    have htakesHost := rowTakes_of_arrival hb
    refine ⟨hentry, ofPath, b.captures, rfl, htakes, htakesHost, ⟨own, hown, ?_⟩, some labels, hhost, ?_⟩
    · rw [htakes.names, hnames]
    · rw [htakesHost.names, Option.getD_some, hlabels]
  · obtain ⟨e, he, rfl⟩ := List.mem_map.mp hc
    obtain ⟨⟨hentry, hhost⟩, own, hown, hnames⟩ := hattached _ (mem_hostless.mp (mem_of_mem_listed he))
    refine ⟨hentry, ofPath, [], (List.append_nil _).symm, htakes, rfl, ⟨own, hown, ?_⟩, none, hhost, rfl⟩
    rw [htakes.names, hnames]

/-! ## Names that are found -/

/-- What a search finds is a candidate of its request, even if it has no step left. -/
theorem find_candidate {r : Router α} {req : Request} {e : Entry α} {captures : Captures}
    (h : (r.find req).result = .found e captures) :
    ∃ c ∈ r.candidates req.host req.path, c.entry = e ∧ c.captures = captures := by
  have hfound? := congrArg MatchResult.found? h
  have hexhausted : (r.find req).exhausted = false := by
    rw [find_eq_play] at hfound? ⊢
    dsimp only at hfound? ⊢
    rw [result_found?] at hfound?
    by_contra hexhausted
    have hnone := (play_visitor_keeps req (r.events req.host req.path)
      (p := ⟨r.config.maxMatchSteps, false, {}⟩) rfl rfl).2 (eq_true_of_ne_false hexhausted)
    rw [hnone] at hfound?
    cases hfound?
  obtain ⟨v, hresult, hfound, -⟩ := find_settled hexhausted
  rw [hresult, result_found?, hfound] at hfound?
  obtain ⟨c, hc, hpair⟩ := List.mem_map.mp (List.mem_of_find?_eq_some hfound?)
  exact ⟨c, hc, congrArg Prod.fst hpair, congrArg Prod.snd hpair⟩

/-- Of distinct names each has the value it was captured with. -/
theorem lookup_of_nodup {captures : Captures} (h : (captures.map Prod.fst).Nodup) {name value : String}
    (hmem : (name, value) ∈ captures) : captures.lookup name = some value := by
  obtain ⟨before, after, rfl⟩ := List.append_of_mem hmem
  refine List.lookup_eq_some_iff.mpr ⟨before, after, rfl, fun p hp => bne_iff_ne.mpr ?_⟩
  rw [List.map_append, List.map_cons] at h
  exact ((List.nodup_append.mp h).2.2 p.1 (List.mem_map_of_mem hp) name List.mem_cons_self).symm

/-- The names that a search captures from the path are, from left to right, those that one choice of the
optional parts of the template of the found route keeps, and so for the host but for their order. So
they are distinct if no choice keeps a name twice, and a name has no other value than the one it is
given. -/
theorem Reachable.captured_names {r : Router α} (h : Reachable r) {req : Request} {e : Entry α}
    {captures : Captures} (hfound : (r.find req).result = .found e captures) :
    e ∈ r.entries ∧ Template.ofString e.route.template.source = .ok e.template ∧
      ∃ ofPath ofHost, captures = ofPath ++ ofHost ∧
        (∃ row, RowTakes row (segmentsOfPath req.path) ofPath) ∧
        (∃ host?, HostTakes req.host host? ofHost) ∧
        ofPath.map Prod.fst ∈ e.template.pathNames ∧
        (∃ names ∈ e.template.hostNames, (ofHost.map Prod.fst).Perm names) ∧
        ((∀ names ∈ e.template.pathNames, names.Nodup) → (ofPath.map Prod.fst).Nodup ∧
          ∀ name value, (name, value) ∈ ofPath → (r.find req).result.value? name = some value) ∧
        ((∀ names ∈ e.template.pathNames, ∀ more ∈ e.template.hostNames, (names ++ more).Nodup) →
          (captures.map Prod.fst).Nodup ∧
          ∀ name value, (name, value) ∈ captures → (r.find req).result.value? name = some value) := by
  obtain ⟨c, hc, rfl, rfl⟩ := find_candidate hfound
  obtain ⟨hentry, ofPath, ofHost, hcaptures, htakes, htakesHost, hown, hownHost⟩ :=
    h.sound.candidate_names hc
  obtain ⟨row, hrow, hpath⟩ := hown
  obtain ⟨host?, hhost, hlabels⟩ := hownHost
  obtain ⟨hpaths, hhosts⟩ := Compiler.mem_compile (h.sound.compiles _ hentry)
  have hnames : ofPath.map Prod.fst ∈ c.entry.template.pathNames := by
    rw [hpath]
    exact ((hpaths row).mp hrow).names
  obtain ⟨names, hmem, hperm⟩ := ((hhosts host?).mp hhost).names
  rw [← hlabels] at hperm
  have hvalue : ∀ name, (r.find req).result.value? name = (ofPath ++ ofHost).lookup name := fun name => by
    rw [hfound, hcaptures]
    rfl
  refine ⟨hentry, h.sound.reads _ hentry, ofPath, ofHost, hcaptures, ⟨_, htakes⟩, ⟨_, htakesHost⟩, hnames,
    ⟨names, hmem, hperm⟩, fun hdistinct => ?_, fun hdistinct => ?_⟩
  · refine ⟨hdistinct _ hnames, fun name value hpair => ?_⟩
    rw [hvalue, List.lookup_append, lookup_of_nodup (hdistinct _ hnames) hpair, Option.some_or]
  · have hnodup : ((ofPath ++ ofHost).map Prod.fst).Nodup := by
      rw [List.map_append]
      exact ((List.Perm.refl _).append hperm).nodup_iff.mpr (hdistinct _ hnames _ hmem)
    rw [hcaptures]
    refine ⟨hnodup, fun name value hpair => ?_⟩
    rw [hvalue, lookup_of_nodup hnodup hpair]

/-- The optional part is kept, and the choices of the path keep one name or two. -/
theorem captured_names_shelf : ∃ e : Entry String, Reachable shelf ∧
    (shelf.find ⟨.get, "api.a.org", "/books/12/3", .empty⟩).result
      = .found e [("id", "12"), ("part", "3")] ∧
    e.template.pathNames = [["id"], ["id", "part"]] ∧ e.template.hostNames = [[], []] ∧
    (shelf.find ⟨.get, "api.a.org", "/books/12/3", .empty⟩).result.value? "part" = some "3" := by
  have hruns : (shelf.find ⟨.get, "api.a.org", "/books/12/3", .empty⟩).result.found?.any (fun found =>
      decide (found.2 = [("id", "12"), ("part", "3")]) &&
      decide (found.1.template.pathNames = [["id"], ["id", "part"]]) &&
      decide (found.1.template.hostNames = [[], []])) = true := by decide +kernel
  obtain ⟨⟨e, captures⟩, hfound?, hruns⟩ := (Option.any_eq_true _ _).mp hruns
  simp only [Bool.and_eq_true, decide_eq_true_eq] at hruns
  obtain ⟨⟨rfl, hpath⟩, hhost⟩ := hruns
  have hfound := found_of_found? hfound?
  obtain ⟨-, -, ofPath, ofHost, -, -, -, -, -, -, hvalue⟩ := shelf_reachable.captured_names hfound
  refine ⟨e, shelf_reachable, hfound, hpath, hhost, (hvalue ?_).2 _ _ (by simp)⟩
  rw [hpath, hhost]
  decide

/-- Nothing refuses a template that repeats a name. The name is captured twice, and the second value is
not to be had. -/
theorem name_captured_twice : ¬ ∀ (r : Router String) (req : Request) (e : Entry String)
    (ofPath ofHost : Captures), Reachable r → (r.find req).result = .found e (ofPath ++ ofHost) →
      (∃ row, RowTakes row (segmentsOfPath req.path) ofPath) → (∃ host?, HostTakes req.host host? ofHost) →
      (ofPath.map Prod.fst).Nodup ∧
        ∀ name value, (name, value) ∈ ofPath → (r.find req).result.value? name = some value := by
  intro hdistinct
  have hruns : ((lone "" "/:id/:id").find ⟨.get, "", "/1/2", .empty⟩).result.found?.any (fun found =>
      decide (found.2 = [("id", "1"), ("id", "2")])) = true := by decide +kernel
  obtain ⟨⟨e, captures⟩, hfound?, htwice⟩ := (Option.any_eq_true _ _).mp hruns
  obtain rfl := of_decide_eq_true htwice
  have hfound := found_of_found? hfound?
  have hreachable := lone_reachable "" "/:id/:id"
  obtain ⟨c, hc, -, hcaptures⟩ := find_candidate hfound
  obtain ⟨-, ofPath, ofHost, hsplit, htakes, htakesHost, -⟩ := hreachable.sound.candidate_names hc
  have hhost : ofHost = [] := by
    cases hlabels : c.host? with
    | none =>
      rw [hlabels] at htakesHost
      exact htakesHost
    | some labels =>
      rw [hlabels, HostTakes, show labelsOf "" = [] by decide] at htakesHost
      exact (rowTakes_nil_iff.mp htakesHost).2
  rw [hhost, List.append_nil, hcaptures] at hsplit
  subst hsplit
  obtain ⟨hnodup, -⟩ := hdistinct _ _ e _ [] hreachable hfound ⟨_, htakes⟩ ⟨none, rfl⟩
  exact absurd hnodup (by decide)

end Router
end UriRouting

import UriRouting.Proofs.Router.Outcome
/-!
Routes that are registered later.

A new route goes behind all that is there: the rows of keys that came before it keep their order, and
so do the candidates of a request. Where the route takes the host and the path by none of its rows, the
request has the same candidates as before, and a search comes to the same result.
-/

namespace UriRouting

variable {α : Type}

/-! ## Rows -/

theorem RowBefore.append {rows : List (List Key)} {a b : List Key} (h : RowBefore rows a b)
    (more : List (List Key)) : RowBefore (rows ++ more) a b := by
  cases h with
  | literal start text p a b => exact .literal start text p a b
  | pattern start p q a b earlier =>
    have hlength : firstStart rows (start ++ [.pattern q]) ≤ rows.length := List.findIdx_le_length
    have hlt : firstStart rows (start ++ [.pattern p]) < rows.length := by omega
    refine .pattern start p q a b ?_
    rw [firstStart_append_of_lt hlt]
    by_cases hq : firstStart rows (start ++ [.pattern q]) < rows.length
    · rw [firstStart_append_of_lt hq]
      exact earlier
    · have hlater := length_le_firstStart_append hq more
      omega

/-! ## Searches -/

/-- What a search has settled on decides its result. -/
theorem Settled.result_eq {req : Request} {visits : List (Visited α)} {methods : List Method}
    {v v' : Verdict α} (h : Settled req visits methods v) (h' : Settled req visits methods v') :
    v.result = v'.result := by
  rw [Verdict.result, Verdict.result, h.found, h'.found]
  cases hfind : visits.find? req.accepts with
  | some w => rfl
  | none => rw [h.allowed hfind, h'.allowed hfind]

/-! ## Single routes -/

/-- Whether some row for the host and some row of the path take a request. -/
def CompiledTemplate.takes (t : CompiledTemplate) (host path : String) : Bool :=
  (t.paths.any fun row => (captureRow? row (segmentsOfPath path)).isSome) &&
    t.hosts.any fun
      | none => true
      | some labels => (captureRow? labels (labelsOf host)).isSome

theorem CompiledTemplate.takes_iff {t : CompiledTemplate} {host path : String} :
    t.takes host path = true ↔ ∃ row ∈ t.paths, ∃ host? ∈ t.hosts,
      ∃ ofPath ofHost, RowTakes row (segmentsOfPath path) ofPath ∧ HostTakes host host? ofHost := by
  have hrow : ∀ {row : List Key} {segments : List String},
      (captureRow? row segments).isSome = true ↔ ∃ captures, RowTakes row segments captures := by
    intro row segments
    simp only [Option.isSome_iff_exists, rowTakes_iff_captureRow?]
  rw [takes, Bool.and_eq_true, List.any_eq_true, List.any_eq_true]
  constructor
  · intro h
    obtain ⟨⟨row, hmem, htakes⟩, host?, hhost, htakesHost⟩ := h
    obtain ⟨ofPath, htakes⟩ := hrow.mp htakes
    cases host? with
    | none => exact ⟨row, hmem, none, hhost, ofPath, [], htakes, rfl⟩
    | some labels =>
      obtain ⟨ofHost, htakesHost⟩ := hrow.mp htakesHost
      exact ⟨row, hmem, some labels, hhost, ofPath, ofHost, htakes, htakesHost⟩
  · intro h
    obtain ⟨row, hmem, host?, hhost, ofPath, ofHost, htakes, htakesHost⟩ := h
    refine ⟨⟨row, hmem, hrow.mpr ⟨ofPath, htakes⟩⟩, host?, hhost, ?_⟩
    cases host? with
    | none => rfl
    | some labels => exact hrow.mpr ⟨ofHost, htakesHost⟩

namespace Router

/-- A route takes a host and a path by some choice of its optional parts. -/
def TakenBy (r : Router α) (route : Route α) (host path : String) : Prop :=
  ∃ template row host? ofPath ofHost, Template.ofString route.template.source = .ok template ∧
    (r.compilerFor route).Spells .path template.path row ∧
    (r.compilerFor route).SpellsHost template.host? host? ∧
    RowTakes row (segmentsOfPath path) ofPath ∧ HostTakes host host? ofHost

/-- The choices of an accepted route are the rows that it was compiled to. -/
theorem Accepts.takenBy_iff {r : Router α} {route : Route α} {template : Template}
    {compiled : CompiledTemplate} (h : r.Accepts route template compiled) {host path : String} :
    r.TakenBy route host path ↔ compiled.takes host path = true := by
  obtain ⟨hpaths, hhosts⟩ := Compiler.mem_compile h.compiles
  rw [CompiledTemplate.takes_iff]
  constructor
  · intro htaken
    obtain ⟨template', row, host?, ofPath, ofHost, hreads, hrow, hhost, htakes⟩ := htaken
    cases hreads.symm.trans h.reads
    exact ⟨row, (hpaths row).mpr hrow, host?, (hhosts host?).mpr hhost, ofPath, ofHost, htakes⟩
  · intro htaken
    obtain ⟨row, hrow, host?, hhost, ofPath, ofHost, htakes⟩ := htaken
    exact ⟨template, row, host?, ofPath, ofHost, h.reads, (hpaths row).mp hrow,
      (hhosts host?).mp hhost, htakes⟩

section

variable {r : Router α} {route : Route α} {template : Template} {compiled : CompiledTemplate}

/-! ## One more route -/

theorem pathRows_extended (r : Router α) (route : Route α) (template : Template)
    (compiled : CompiledTemplate) :
    ∃ more, (r.extended route template compiled).pathRows = r.pathRows ++ more :=
  ⟨_, List.flatMap_append⟩

theorem hostRows_extended (r : Router α) (route : Route α) (template : Template)
    (compiled : CompiledTemplate) (path : List Key) :
    ∃ more, (r.extended route template compiled).hostRows path = r.hostRows path ++ more := by
  have hattachments : (r.extended route template compiled).attachmentsAt path
      = r.attachmentsAt path ++ [r.entryFor route template].flatMap (r.attachmentsOf path) :=
    List.flatMap_append
  exact ⟨_, (congrArg (List.filterMap Prod.snd) hattachments).trans List.filterMap_append⟩

/-- Candidates keep their order. -/
theorem Before.extended {a b : Candidate α} (h : r.Before a b) (route : Route α) (template : Template)
    (compiled : CompiledTemplate) : (r.extended route template compiled).Before a b := by
  cases h with
  | path h =>
    obtain ⟨more, hrows⟩ := r.pathRows_extended route template compiled
    refine .path ?_
    rw [hrows]
    exact h.append more
  | bound hpath ha hb => exact .bound hpath ha hb
  | host hpath ha hb h =>
    obtain ⟨more, hrows⟩ := r.hostRows_extended route template compiled a.path
    refine .host hpath ha hb ?_
    rw [hrows]
    exact h.append more
  | position hpath hhost h => exact .position hpath hhost h

/-- A candidate after the registration was one before, or it is the new route. -/
theorem matches_extended_iff {host path : String} (hnot : ¬ r.TakenBy route host path)
    {c : Candidate α} :
    c.Matches (r.extended route template compiled) host path ↔ c.Matches r host path := by
  constructor
  · intro h
    obtain ⟨hmem, hspelled, htaken⟩ := h
    rcases List.mem_append.mp hmem with hmem | hmem
    · exact ⟨hmem, hspelled, htaken⟩
    · have hroute : c.entry.route = route := by rw [List.mem_singleton.mp hmem]; rfl
      obtain ⟨template', hreads, hpath, hhost⟩ := hspelled
      obtain ⟨ofPath, ofHost, htakes, htakesHost, -⟩ := htaken
      rw [hroute] at hreads hpath hhost
      exact absurd ⟨template', c.path, c.host?, ofPath, ofHost, hreads, hpath, hhost, htakes,
        htakesHost⟩ hnot
  · intro h
    exact ⟨List.mem_append_left _ h.registered, h.spelled, h.taken⟩

theorem ruleParams_extended {p : Param} (hp : p ∈ r.ruleParams) :
    p ∈ (r.extended route template compiled).ruleParams := by
  obtain ⟨k, hk, hp⟩ := List.mem_flatMap.mp hp
  obtain ⟨e, he, hk⟩ := List.mem_flatMap.mp hk
  exact List.mem_flatMap.mpr ⟨k, List.mem_flatMap.mpr ⟨e, List.mem_append_left _ he, hk⟩, hp⟩

/-- A route that does not take a request leaves its candidates as they were, and in their order. -/
theorem Sound.candidates_extended (h : r.Sound) (haccepts : r.Accepts route template compiled)
    (hplain : ∀ p ∈ (r.extended route template compiled).ruleParams, p.isPlain = true)
    {host path : String} (hnot : ¬ r.TakenBy route host path) :
    (r.extended route template compiled).candidates host path = r.candidates host path := by
  have hnew := h.extended haccepts
  have hlawful := lawful_of_plain fun p hp => hplain p (ruleParams_extended hp)
  have hlawful' := lawful_of_plain hplain
  have hperm : ((r.extended route template compiled).candidates host path).Perm
      (r.candidates host path) := by
    rw [List.perm_ext_iff_of_nodup (hnew.candidates_nodup hlawful' host path)
      (h.candidates_nodup hlawful host path)]
    intro c
    rw [hnew.mem_candidates hlawful', h.mem_candidates hlawful]
    exact matches_extended_iff hnot
  refine hperm.eq_of_pairwise (fun a b _ _ hab hba => absurd hba hab.asymm)
    (hnew.candidates_pairwise hlawful' host path) ?_
  exact (h.candidates_pairwise hlawful host path).imp fun hbefore => hbefore.extended _ _ _

end

/-- A later route that does not take the host and the path of a request cannot disturb it: the request
finds the same route with the same captures, or the same methods are allowed in the same order. -/
theorem Reachable.find_undisturbed {r r' : Router α} (h : Reachable r) {route : Route α}
    {attached : Nat} (hregister : Router.register route r = .ok attached r')
    (hplain : ∀ p ∈ r'.ruleParams, p.isPlain = true) {req : Request}
    (hnot : ¬ r.TakenBy route req.host req.path) (hbefore : (r.find req).exhausted = false)
    (hafter : (r'.find req).exhausted = false) :
    (r'.find req).result = (r.find req).result := by
  rcases register_cases route r with ⟨e, hrun⟩ | ⟨template, compiled, haccepts, hrun⟩
  · cases hrun.symm.trans hregister
  · cases hrun.symm.trans hregister
    have hcandidates := h.sound.candidates_extended haccepts hplain hnot
    obtain ⟨v, hresult, hsettled⟩ := find_settled hbefore
    obtain ⟨v', hresult', hsettled'⟩ := find_settled hafter
    rw [hcandidates] at hsettled'
    rw [hresult, hresult']
    exact hsettled'.result_eq hsettled

/-- A route for another host that ends at a node of `shelf` where a trie of hosts hangs already. -/
def lateRoute : Route String :=
  .new [.delete] ((UriTemplate.ofPath "/books/:id(int)[/:chapter]").withHost "[:branch.]b.org") "late"

/-- The later route would take the method, but not the host. -/
theorem find_undisturbed_shelf : Reachable shelf ∧
    ∃ attached r', Router.register lateRoute shelf = .ok attached r' ∧ r'.nodeCount = 21 ∧
      (∀ p ∈ r'.ruleParams, p.isPlain = true) ∧ ¬ shelf.TakenBy lateRoute "api.a.org" "/books/7" ∧
      (r'.find ⟨.delete, "api.a.org", "/books/7", .empty⟩).result
        = (shelf.find ⟨.delete, "api.a.org", "/books/7", .empty⟩).result ∧
      (r'.find ⟨.delete, "api.a.org", "/books/7", .empty⟩).result.allowedMethods = [.get, .post] := by
  have hruns : shelf.entries.length = 4 ∧ (shelf.registered lateRoute).nodeCount = 21 ∧
      (shelf.registered lateRoute).ruleParams.all Param.isPlain = true ∧
      ((shelf.registered lateRoute).entries.drop 4).map
        (fun e => (shelf.compiledOf e).takes "api.a.org" "/books/7") = [false] ∧
      (shelf.find ⟨.delete, "api.a.org", "/books/7", .empty⟩).exhausted = false ∧
      ((shelf.registered lateRoute).find ⟨.delete, "api.a.org", "/books/7", .empty⟩).exhausted
        = false ∧
      ((shelf.registered lateRoute).find
        ⟨.delete, "api.a.org", "/books/7", .empty⟩).result.allowedMethods = [.get, .post] := by
    decide +kernel
  obtain ⟨hlength, hcount, hplain, htakes, hbefore, hafter, hallowed⟩ := hruns
  rcases register_cases lateRoute shelf with ⟨e, hrun⟩ | ⟨template, compiled, haccepts, hrun⟩
  · have hrefused : shelf.registered lateRoute = shelf := by rw [registered, hrun]
    rw [hrefused, List.drop_of_length_le (by rw [hlength])] at htakes
    cases htakes
  · have hextended : shelf.registered lateRoute = shelf.extended lateRoute template compiled := by
      rw [registered, hrun]
    have hentries : (shelf.registered lateRoute).entries
        = shelf.entries ++ [shelf.entryFor lateRoute template] := by rw [hextended]; rfl
    have hnot : ¬ shelf.TakenBy lateRoute "api.a.org" "/books/7" := by
      rw [hentries, ← hlength, List.drop_left, List.map_singleton, haccepts.compiledOf_eq] at htakes
      rw [haccepts.takenBy_iff, (List.cons.inj htakes).1]
      exact Bool.false_ne_true
    rw [← hextended] at hrun
    exact ⟨shelf_reachable, _, _, hrun, hcount, List.all_eq_true.mp hplain, hnot,
      Reachable.find_undisturbed shelf_reachable hrun (List.all_eq_true.mp hplain) hnot hbefore hafter,
      hallowed⟩

end Router
end UriRouting

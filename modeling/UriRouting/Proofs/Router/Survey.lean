import UriRouting.Proofs.Router.Candidates
/-!
Walks that nothing stops.

A survey is a walk whose visitor writes down every route that it is shown and never breaks the walk
off. With steps enough it comes by all candidates of a request, and without it says so.
-/

namespace UriRouting

variable {α ε σ : Type}

/-! ## Writing down -/

def Visitor.recorder : Visitor ε (List (ε × Captures)) where
  visit found captures := modify (· ++ [(found, captures)])
  hear _ seen := seen

def attempts (es : List (Event ε)) : Nat :=
  es.countP fun
    | .attempt => true
    | _ => false

theorem attempts_append (es es' : List (Event ε)) : attempts (es ++ es') = attempts es + attempts es' :=
  List.countP_append

theorem attempts_attempt (es : List (Event ε)) : attempts (.attempt :: es) = attempts es + 1 :=
  List.countP_cons_of_pos rfl

theorem attempts_visit (found : ε) (captures : Captures) (es : List (Event ε)) :
    attempts (.visit found captures :: es) = attempts es := List.countP_cons_of_neg Bool.false_ne_true

theorem attempts_questions (asked : List Evaluation) :
    attempts (asked.map .question : List (Event ε)) = 0 := by
  simp [attempts, List.countP_map, Function.comp_def]

theorem play_recorder {es : List (Event ε)} {p : Progress (List (ε × Captures))}
    (h : attempts es ≤ p.stepsLeft) :
    Visitor.recorder.play es p = (true, { p with
      stepsLeft := p.stepsLeft - attempts es
      seen := p.seen ++ es.filterMap Event.end? }) := by
  induction es generalizing p with
  | nil => simp [Visitor.play, attempts]
  | cons e es ih =>
    cases e with
    | attempt =>
      obtain ⟨stepsLeft, exhausted, seen⟩ := p
      rw [attempts_attempt] at h ⊢
      dsimp only at h
      cases stepsLeft with
      | zero => omega
      | succ n =>
        have hle : attempts es ≤ n := by omega
        rw [Visitor.play]
        dsimp only
        rw [ih hle]
        simp only [Nat.add_sub_add_right, List.filterMap_cons, Event.end?]
    | question e => exact ih h
    | visit found captures =>
      rw [attempts_visit] at h ⊢
      have hrest := ih (p := { p with seen := p.seen ++ [(found, captures)] }) h
      simp only [List.append_assoc, List.singleton_append] at hrest
      rw [List.filterMap_cons]
      exact hrest

theorem exhausted_of_lt {es : List (Event ε)} {p : Progress (List (ε × Captures))}
    (h : p.stepsLeft < attempts es) : (Visitor.recorder.play es p).2.exhausted = true := by
  induction es generalizing p with
  | nil => exact absurd h (Nat.not_lt_zero _)
  | cons e es ih =>
    cases e with
    | attempt =>
      obtain ⟨stepsLeft, exhausted, seen⟩ := p
      rw [attempts_attempt] at h
      cases stepsLeft with
      | zero => rfl
      | succ n =>
        refine ih ?_
        dsimp only at h ⊢
        omega
    | question e => exact ih h
    | visit found captures =>
      rw [attempts_visit] at h
      exact ih h

/-! ## Walks through a router -/

def hostEnds (entries : List (Entry α)) (captures : Captures) : List (Event (Entry α)) :=
  entries.flatMap fun e => [.visit e captures]

def pathEnds (labels : List String) (p : PathEnd α) (captures : Captures) : List (Event (Entry α)) :=
  (match p.hosts? with
    | some hosts => hosts.events hostEnds labels captures
    | none => [])
  ++ hostEnds p.entries captures

namespace Router

/-- Everything that happens on a walk that nothing breaks off. -/
def events (r : Router α) (host path : String) : List (Event (Entry α)) :=
  r.root.events (pathEnds (labelsOf host)) (segmentsOfPath path) []

theorem arriveAtHost_follows (v : Visitor (Entry α) σ) (entries : List (Entry α)) :
    Follows v (arriveAtHost v entries) (hostEnds entries) :=
  follows_forM fun e _ => follows_arrive e

theorem arriveAtPath_follows (v : Visitor (Entry α) σ) (labels : List String) (p : PathEnd α) :
    Follows v (arriveAtPath v labels p) (pathEnds labels p) := by
  obtain ⟨entries, hosts?⟩ := p
  refine follows_seq ?_ (arriveAtHost_follows v entries)
  cases hosts? with
  | none => exact follows_pure
  | some hosts => exact descend_follows (arriveAtHost_follows v) labels hosts

theorem walk_follows (r : Router α) (v : Visitor (Entry α) σ) (host path : String) :
    Follows v (r.walk v host path) (r.root.events (pathEnds (labelsOf host)) (segmentsOfPath path)) :=
  descend_follows (arriveAtPath_follows v (labelsOf host)) (segmentsOfPath path) r.root

/-- Whether or not a walk breaks off, it ends where the play of its events ends. -/
theorem walked_toProgress (r : Router α) (v : Visitor (Entry α) σ) (host path : String) (steps : Nat)
    (seen : σ) : (r.walked v host path steps seen).toProgress
      = (v.play (r.events host path) { stepsLeft := steps, seen }).2 := by
  have h := r.walk_follows v host path { stepsLeft := steps, seen }
  unfold walked
  cases hrun : r.walk v host path { stepsLeft := steps, seen } with
  | ok _ w =>
    rw [hrun] at h
    exact (congrArg Prod.snd h.1).symm
  | error _ w =>
    rw [hrun] at h
    exact (congrArg Prod.snd h).symm

theorem filterMap_end?_routerEvents (r : Router α) (host path : String) :
    (r.events host path).filterMap Event.end?
      = (r.candidates host path).map fun c => (c.entry, c.captures) := by
  have hends : ∀ (entries : List (Entry α)) (captures : Captures),
      (hostEnds entries captures).filterMap Event.end? = entries.map fun e => (e, captures) := by
    intro entries captures
    induction entries with
    | nil => rfl
    | cons e entries ih =>
      show (e, captures) :: (hostEnds entries captures).filterMap Event.end? = _
      rw [ih, List.map_cons]
  unfold events candidates
  rw [filterMap_end?_events, List.map_flatMap]
  congr 1
  funext a
  rw [pathEnds, List.filterMap_append, hends, candidatesAt, List.map_append, List.map_map,
    List.nil_append]
  congr 1
  cases a.value.hosts? with
  | none => rfl
  | some hosts =>
    rw [filterMap_end?_events, List.map_flatMap]
    congr 1
    funext b
    rw [hends, hostCandidates, List.map_map]
    rfl

/-! ## Surveys -/

/-- What a walk with a number of steps leaves when its visitor writes down every route. -/
def survey (r : Router α) (host path : String) (steps : Nat) : Walk (List (Entry α × Captures)) :=
  r.walked .recorder host path steps []

theorem survey_exhausted (r : Router α) (host path : String) (steps : Nat) :
    (r.survey host path steps).exhausted = false ↔ attempts (r.events host path) ≤ steps := by
  have h := r.walked_toProgress .recorder host path steps []
  constructor
  · intro hfalse
    by_contra hlt
    have htrue : (Visitor.recorder.play (r.events host path) ⟨steps, false, []⟩).2.exhausted = true :=
      exhausted_of_lt (not_le.mp hlt)
    rw [← h] at htrue
    exact nomatch htrue.symm.trans hfalse
  · intro hle
    rw [play_recorder hle] at h
    show (r.survey host path steps).toProgress.exhausted = false
    rw [survey, h]

/-- A survey that is not exhausted has come by all candidates. -/
theorem survey_seen {r : Router α} {host path : String} {steps : Nat}
    (h : (r.survey host path steps).exhausted = false) :
    (r.survey host path steps).seen = (r.candidates host path).map fun c => (c.entry, c.captures) := by
  have hplay := r.walked_toProgress .recorder host path steps []
  rw [play_recorder ((r.survey_exhausted host path steps).mp h), filterMap_end?_routerEvents] at hplay
  show (r.survey host path steps).toProgress.seen = _
  rw [survey, hplay]
  rfl

/-! ## Templates and walks -/

/-- A walk agrees with the templates when it visits the candidates that the templates of the routes
allow, each once. -/
def WalkAgrees (r : Router α) (host path : String) : Prop :=
  ∃ visited : List (Candidate α), visited.Nodup ∧ (∀ c, c ∈ visited ↔ c.Matches r host path) ∧
    (∃ enough, ∀ steps, enough ≤ steps → (r.survey host path steps).exhausted = false) ∧
    ∀ steps, (r.survey host path steps).exhausted = false →
      (r.survey host path steps).seen = visited.map fun c => (c.entry, c.captures)

/-- Every walk through a reachable router agrees with the templates, as long as no two parameters of
its rules are the same without being equal, and each is the same as itself. -/
theorem Reachable.walk_agrees {r : Router α} (h : Reachable r) (hlawful : Lawful r.ruleParams)
    (host path : String) : r.WalkAgrees host path := by
  refine ⟨r.candidates host path, h.sound.candidates_nodup hlawful host path,
    fun c => h.sound.mem_candidates hlawful, ?_, fun steps hsteps => survey_seen hsteps⟩
  exact ⟨attempts (r.events host path), fun steps hle => (r.survey_exhausted host path steps).mpr hle⟩

theorem shelf_walk_agrees : Reachable shelf ∧ Lawful shelf.ruleParams ∧
    shelf.WalkAgrees "api.a.org" "/books/7" ∧
    (shelf.survey "api.a.org" "/books/7" 20).seen.map (fun seen => (seen.1.position, seen.2))
      = [(0, [("id", "7")]), (1, [("id", "7")]), (2, [("id", "7")])] := by
  have hruns : shelf.ruleParams.all Param.isPlain = true ∧
      (shelf.survey "api.a.org" "/books/7" 20).seen.map (fun seen => (seen.1.position, seen.2))
        = [(0, [("id", "7")]), (1, [("id", "7")]), (2, [("id", "7")])] := by decide +kernel
  obtain ⟨hplain, hseen⟩ := hruns
  have hlawful : Lawful shelf.ruleParams := lawful_of_plain (List.all_eq_true.mp hplain)
  exact ⟨shelf_reachable, hlawful, shelf_reachable.walk_agrees hlawful _ _, hseen⟩

/-! ## Parameters that are not lawful

Where a parameter is the same as a different one, a later route is put under a key that is not its
own. Where one is not the same as itself, every form makes a node of its own. -/

/-- The place of a route without a host whose rows take a path. -/
theorem Sound.exists_matches {r : Router α} (h : r.Sound) {i : Nat} {host path : String}
    (hi : (r.entries[i]?).any (fun e => (r.compiledOf e).hosts?.isNone &&
      (r.compiledOf e).paths.any fun row => (captureRow? row (segmentsOfPath path)).isSome) = true) :
    ∃ c : Candidate α, c.Matches r host path := by
  obtain ⟨e, he, hrows⟩ := (Option.any_eq_true _ _).mp hi
  rw [Bool.and_eq_true, Option.isNone_iff_eq_none, List.any_eq_true] at hrows
  obtain ⟨hnone, row, hrow, hsome⟩ := hrows
  obtain ⟨captures, hcaptures⟩ := Option.isSome_iff_exists.mp hsome
  have hmem : e ∈ r.entries := List.mem_of_getElem? he
  obtain ⟨hpaths, hhosts⟩ := Compiler.mem_compile (h.compiles e hmem)
  have hhost : none ∈ (r.compiledOf e).hosts := by
    rw [CompiledTemplate.hosts, hnone]
    exact List.mem_singleton_self none
  exact ⟨⟨e, row, none, captures⟩, hmem, ⟨_, h.reads e hmem, (hpaths row).mp hrow, (hhosts none).mp hhost⟩,
    captures, [], rowTakes_iff_captureRow?.mpr hcaptures, rfl, (List.append_nil _).symm⟩

/-- Two routes whose rules have the two zeros for their parameters. -/
def zeros : Router String :=
  (empty .default {})
    |>.registered ((Route.new [.get] (.ofPath "/:v") "positive").addRule "v"
        ⟨"in", [.float (.signed false 0)]⟩)
    |>.registered ((Route.new [.post] (.ofPath "/:v") "negative").addRule "v"
        ⟨"in", [.float (.signed true 0)]⟩)

theorem zeros_reachable : Reachable zeros := by
  unfold zeros
  exact ((Reachable.empty _ _).register _).register _

/-- The second route is under the key of the first one, and its own value does not lead there. -/
theorem zeros_disagrees : ¬ zeros.WalkAgrees "" "/-0" := by
  intro h
  obtain ⟨visited, -, hmem, -, hseen⟩ := h
  have hruns : (zeros.survey "" "/-0" 10).exhausted = false ∧
      (zeros.survey "" "/-0" 10).seen.length = 0 := by decide +kernel
  obtain ⟨hexhausted, hnone⟩ := hruns
  obtain ⟨c, hc⟩ : ∃ c : Candidate String, c.Matches zeros "" "/-0" :=
    zeros_reachable.sound.exists_matches (i := 1) (by decide +kernel)
  rw [hseen 10 hexhausted, List.length_map, List.length_eq_zero_iff] at hnone
  have hvisited := (hmem c).mpr hc
  rw [hnone] at hvisited
  cases hvisited

/-- A route with an optional slash, whose rule has a parameter that is no number. -/
def noNumber : Router String :=
  (empty .default {})
    |>.registered ((Route.new [.get] (.ofPath "/:v[/]") "value").addRule "v" ⟨"in", [.float .nan]⟩)

theorem noNumber_reachable : Reachable noNumber := by
  unfold noNumber
  exact (Reachable.empty _ _).register _

/-- With and without a delimiter at its end a form has the same keys. -/
theorem spells_delimiter {c : Compiler} {slot : Slot} {row row' : List Key}
    (h : c.Spells .path [.delimiter, .var slot, .optional [.delimiter]] row)
    (h' : c.Spells .path [.delimiter, .var slot, .optional [.delimiter]] row') : row = row' := by
  have hkeys : ∀ {row}, c.Spells .path [.delimiter, .var slot, .optional [.delimiter]] row →
      ∃ v, c.variableOf slot = .ok v ∧ c.keysOf .path [.delimiter, .part (.var v)] = .ok row := by
    intro row h
    obtain ⟨resolved, count, form, hresolve, hform, hrow⟩ := h
    cases hv : c.variableOf slot with
    | error e =>
      simp only [Compiler.resolve, Compiler.resolvePart, hv] at hresolve
      cases hresolve
    | ok v =>
      refine ⟨v, rfl, ?_⟩
      by_cases hlimit : c.config.maxTemplateAlternatives < 1 + 1
      · simp only [Compiler.resolve, Compiler.resolvePart, hv, if_pos hlimit] at hresolve
        cases hresolve
      · simp only [Compiler.resolve, Compiler.resolvePart, hv, if_neg hlimit] at hresolve
        cases hresolve
        cases hform with
        | delimiter hform => cases hform with
          | var _ hform => cases hform with
            | drop _ hform =>
              cases hform
              exact hrow
            | keep hinner hform =>
              cases hform
              cases hinner with
              | delimiter hinner =>
                cases hinner
                exact hrow
  obtain ⟨v, hv, hrow⟩ := hkeys h
  obtain ⟨v', hv', hrow'⟩ := hkeys h'
  rw [hv, Except.ok.injEq] at hv'
  rw [← hv', hrow, Except.ok.injEq] at hrow'
  exact hrow'

/-- The template of the one route leaves a candidate no choice. -/
theorem noNumber_spelled {c : Candidate String} (h : c.Matches noNumber "" "/NaN") :
    (noNumber.compilerFor c.entry.route).Spells .path
      [.delimiter, .var ⟨"v", []⟩, .optional [.delimiter]] c.path ∧ c.host? = none := by
  have hsource : noNumber.entries.all (·.route.template.source = "/:v[/]") = true := by decide +kernel
  have hread : Template.ofString "/:v[/]"
      = .ok ⟨none, [.delimiter, .var ⟨"v", []⟩, .optional [.delimiter]]⟩ := by rfl
  obtain ⟨template, hreads, hpath, hhost⟩ := h.spelled
  have hsource' := List.all_eq_true.mp hsource c.entry h.registered
  rw [of_decide_eq_true hsource', hread] at hreads
  cases hreads
  refine ⟨hpath, ?_⟩
  cases hc : c.host? with
  | none => rfl
  | some labels =>
    rw [hc] at hhost
    exact hhost.elim

theorem noNumber_matches_unique {c c' : Candidate String} (h : c.Matches noNumber "" "/NaN")
    (h' : c'.Matches noNumber "" "/NaN") : c = c' := by
  have hone : noNumber.entries.length = 1 := by decide +kernel
  have hentry : c.entry = c'.entry := by
    obtain ⟨e, he⟩ := List.length_eq_one_iff.mp hone
    have hmem := h.registered
    have hmem' := h'.registered
    rw [he, List.mem_singleton] at hmem hmem'
    rw [hmem, hmem']
  obtain ⟨hpath, hhost⟩ := noNumber_spelled h
  obtain ⟨hpath', hhost'⟩ := noNumber_spelled h'
  rw [← hentry] at hpath'
  exact h.ext h' hentry (spells_delimiter hpath hpath') (hhost.trans hhost'.symm)

/-- The route has one row of keys and is visited twice. -/
theorem noNumber_disagrees : ¬ noNumber.WalkAgrees "" "/NaN" := by
  intro h
  obtain ⟨visited, hnodup, hmem, -, hseen⟩ := h
  have hruns : (noNumber.survey "" "/NaN" 10).exhausted = false ∧
      (noNumber.survey "" "/NaN" 10).seen.length = 2 := by decide +kernel
  obtain ⟨hexhausted, htwice⟩ := hruns
  rw [hseen 10 hexhausted, List.length_map] at htwice
  obtain ⟨c, c', rfl⟩ := List.length_eq_two.mp htwice
  have hc := (hmem c).mp List.mem_cons_self
  have hc' := (hmem c').mp (List.mem_cons_of_mem c List.mem_cons_self)
  exact (List.nodup_cons.mp hnodup).1 (List.mem_singleton.mpr (noNumber_matches_unique hc hc'))

/-- Without lawful parameters a walk need not agree with the templates. Of two zeros the one is taken for the other,
and with it the rule that compares its text; a parameter that is not itself gives equal forms nodes of their own. -/
theorem walk_disagrees : (Reachable zeros ∧ ¬ zeros.WalkAgrees "" "/-0") ∧
    Reachable noNumber ∧ ¬ noNumber.WalkAgrees "" "/NaN" :=
  ⟨⟨zeros_reachable, zeros_disagrees⟩, noNumber_reachable, noNumber_disagrees⟩

end Router

end UriRouting

import UriRouting.Proofs.Router.Outcome
/-!
Searches with more steps.

A walk that runs out of steps stands in the middle of its events, and with more steps it goes on from
there; a walk that does not run out of them comes to the same end: `play_withMore`. So a search with
more steps keeps the methods that it has gathered. Nothing else in a router depends on the number of
its steps.
-/

namespace UriRouting

variable {α ε σ : Type}

/-! ## Walks -/

def Progress.withMore (p : Progress σ) (k : Nat) : Progress σ :=
  { p with stepsLeft := p.stepsLeft + k }

theorem Progress.withMore_succ (n k : Nat) (exhausted : Bool) (seen : σ) :
    (⟨n + 1, exhausted, seen⟩ : Progress σ).withMore k = ⟨n + k + 1, exhausted, seen⟩ := by
  rw [withMore, Nat.add_right_comm]

/-- With more steps a walk has some left at the same end, or it goes on where it ran out of them. -/
theorem Visitor.play_withMore (v : Visitor ε σ) (k : Nat) (es : List (Event ε)) {p : Progress σ}
    (hp : p.exhausted = false) :
    ((v.play es p).2.exhausted = false ∧
        v.play es (p.withMore k) = ((v.play es p).1, (v.play es p).2.withMore k)) ∨
      (v.play es p).2.exhausted = true ∧
        ∃ rest, v.play es (p.withMore k) = v.play rest ⟨k, false, (v.play es p).2.seen⟩ := by
  induction es generalizing p with
  | nil => exact Or.inl ⟨hp, rfl⟩
  | cons e es ih =>
    cases e with
    | attempt =>
      obtain ⟨stepsLeft, exhausted, seen⟩ := p
      have hexhausted : exhausted = false := hp
      subst hexhausted
      cases stepsLeft with
      | zero =>
        refine Or.inr ⟨rfl, .attempt :: es, ?_⟩
        rw [Progress.withMore, Nat.zero_add]
        rfl
      | succ n =>
        rw [Progress.withMore_succ]
        exact ih (p := ⟨n, false, seen⟩) rfl
    | question e => exact ih (p := { p with seen := v.hear e p.seen }) hp
    | visit found captures =>
      have hseen : (p.withMore k).seen = p.seen := rfl
      rw [play, play, hseen]
      cases v.visit found captures p.seen with
      | ok _ seen => exact ih (p := { p with seen }) hp
      | error _ seen => exact Or.inl ⟨hp, rfl⟩

/-! ## Searches -/

theorem Method.union_prefix (methods more : List Method) : methods <+: Method.union methods more := by
  induction more generalizing methods with
  | nil => exact List.prefix_rfl
  | cons m more ih =>
    have hadd : methods <+: Method.addNew methods m := by
      unfold Method.addNew
      split
      · exact List.prefix_rfl
      · exact List.prefix_append methods [m]
    exact hadd.trans (ih _)

/-- Looking at a route keeps the methods, and what was found is not lost unless the search is over. -/
theorem Request.consider_keeps (req : Request) (e : Entry α) (captures : Captures) (v : Verdict α) :
    match req.consider e captures v with
    | .ok _ v' => v.allowed <+: v'.allowed ∧ v'.found? = v.found?
    | .error _ v' => v.allowed <+: v'.allowed := by
  rw [consider_run]
  cases e.route.allows req.method with
  | false => exact ⟨Method.union_prefix _ _, rfl⟩
  | true =>
    simp only [if_true]
    cases e.route.constraintsPass (req.context captures) with
    | false => exact ⟨List.prefix_rfl, rfl⟩
    | true => exact List.prefix_rfl

/-- A search keeps the methods that it has gathered. When it runs out of steps, it has found nothing. -/
theorem play_visitor_keeps (req : Request) (es : List (Event (Entry α))) {p : Progress (Verdict α)}
    (hp : p.exhausted = false) (hnone : p.seen.found? = none) :
    p.seen.allowed <+: (req.visitor.play es p).2.seen.allowed ∧
      ((req.visitor.play es p).2.exhausted = true → (req.visitor.play es p).2.seen.found? = none) := by
  induction es generalizing p with
  | nil => exact ⟨List.prefix_rfl, fun _ => hnone⟩
  | cons e es ih =>
    cases e with
    | attempt =>
      obtain ⟨stepsLeft, exhausted, seen⟩ := p
      cases stepsLeft with
      | zero => exact ⟨List.prefix_rfl, fun _ => hnone⟩
      | succ n => exact ih (p := ⟨n, exhausted, seen⟩) hp hnone
    | question e => exact ih (p := { p with seen := p.seen.note [.rule e] }) hp hnone
    | visit found captures =>
      have hkeeps := req.consider_keeps found captures p.seen
      have hvisit : req.visitor.visit found captures p.seen = req.consider found captures p.seen := rfl
      rw [Visitor.play, hvisit]
      cases hrun : req.consider found captures p.seen with
      | ok _ seen =>
        rw [hrun] at hkeeps
        obtain ⟨hallowed, hfound⟩ := hkeeps
        have hrest := ih (p := { p with seen }) hp (hfound.trans hnone)
        exact ⟨hallowed.trans hrest.1, hrest.2⟩
      | error _ seen =>
        rw [hrun] at hkeeps
        exact ⟨hkeeps, fun hexhausted => absurd (hp.symm.trans hexhausted) Bool.false_ne_true⟩

theorem ofAllowed_eq_methodNotAllowed {allowed methods : List Method} :
    (MatchResult.ofAllowed allowed : MatchResult α) = .methodNotAllowed methods ↔
      allowed = methods ∧ methods ≠ [] := by
  rw [MatchResult.ofAllowed]
  cases allowed with
  | nil => simp [eq_comm]
  | cons m allowed =>
    simp only [List.isEmpty_cons, Bool.false_eq_true, if_false, MatchResult.methodNotAllowed.injEq]
    refine ⟨fun h => ⟨h, ?_⟩, fun h => h.1⟩
    rw [← h]
    exact List.cons_ne_nil m allowed

/-- With more methods gathered a search finds a route, or more methods are allowed. -/
theorem Verdict.result_of_prefix {v v' : Verdict α} {allowed : List Method} (hnone : v.found? = none)
    (hle : v.allowed <+: v'.allowed) (h : v.result = .methodNotAllowed allowed) :
    (∃ e captures, v'.result = .found e captures) ∨
      ∃ more, v'.result = .methodNotAllowed (allowed ++ more) := by
  rw [result, hnone] at h
  obtain ⟨rfl, hne⟩ := ofAllowed_eq_methodNotAllowed.mp h
  obtain ⟨more, hmore⟩ := hle
  rw [result]
  cases v'.found? with
  | some found => exact Or.inl ⟨found.1, found.2, rfl⟩
  | none =>
    refine Or.inr ⟨more, ofAllowed_eq_methodNotAllowed.mpr ⟨hmore.symm, ?_⟩⟩
    simp [hne]

namespace Compiler

/-! ## Compiling

No template is compiled in another way because a search may take more steps. -/

def withSteps (c : Compiler) (steps : Nat) : Compiler :=
  { c with config := { c.config with maxMatchSteps := steps } }

theorem resolve_withSteps (c : Compiler) (steps forms : Nat) (parts : List (Part Slot)) :
    (c.withSteps steps).resolve forms parts = c.resolve forms parts := by
  induction parts using Part.rows_induction generalizing forms with
  | nil => rfl
  | delimiter rest ih => simp only [resolve, resolvePart, ih]
  | text s rest ih => simp only [resolve, resolvePart, ih]
  | var slot rest ih =>
    have hvar : (c.withSteps steps).variableOf slot = c.variableOf slot := rfl
    simp only [resolve, resolvePart, ih, hvar]
  | optional inner rest ihinner ih =>
    have hlimit : (c.withSteps steps).config.maxTemplateAlternatives
        = c.config.maxTemplateAlternatives := rfl
    simp only [resolve, resolvePart, ih, ihinner, hlimit]

theorem compile_withSteps (c : Compiler) (steps : Nat) (t : Template) :
    (c.withSteps steps).compile t = c.compile t := by
  have hexpand : ∀ side parts, (c.withSteps steps).expand side parts = c.expand side parts := by
    intro side parts
    have hkeys : (c.withSteps steps).keysOf side = c.keysOf side := rfl
    rw [expand_eq, expand_eq, resolve_withSteps, hkeys]
  simp only [compile, hexpand]

end Compiler

namespace Router

/-! ## Routers -/

def withSteps (r : Router α) (steps : Nat) : Router α :=
  { r with config := { r.config with maxMatchSteps := steps } }

theorem registered_withSteps (r : Router α) (steps : Nat) (route : Route α) :
    (r.withSteps steps).registered route = (r.registered route).withSteps steps := by
  have hcompile : ∀ t, ((r.withSteps steps).compilerFor route).compile t
      = (r.compilerFor route).compile t := (r.compilerFor route).compile_withSteps steps
  have hnames : (r.withSteps steps).names = r.names := rfl
  unfold registered
  rw [register_run, register_run, compileRoute_run, compileRoute_run, hnames]
  cases route.name?.filter r.names.contains with
  | some name => rfl
  | none =>
    cases Template.ofString route.template.source with
    | error fault => rfl
    | ok template =>
      simp only [hcompile]
      cases (r.compilerFor route).compile template with
      | error fault => rfl
      | ok compiled => rfl

theorem foldl_registered_withSteps (routes : List (Route α)) (r : Router α) (steps : Nat) :
    routes.foldl registered (r.withSteps steps) = (routes.foldl registered r).withSteps steps := by
  induction routes generalizing r with
  | nil => rfl
  | cons route routes ih => rw [List.foldl_cons, List.foldl_cons, registered_withSteps, ih]

/-- A search is the play of the events of its walk. -/
theorem find_eq_play (r : Router α) (req : Request) :
    r.find req =
      let p := (req.visitor.play (r.events req.host req.path) ⟨r.config.maxMatchSteps, false, {}⟩).2
      ⟨p.seen.result, p.exhausted, p.seen.asked.reverse⟩ := by
  have hwalked := r.walked_toProgress req.visitor req.host req.path r.config.maxMatchSteps {}
  rw [← hwalked]
  rfl

/-- What a search in the same router with more steps gives: the same, unless the steps ran out; then
nothing was found, and the methods that were gathered are kept. -/
theorem find_withMore (r : Router α) (req : Request) (k : Nat) :
    ((r.find req).exhausted = false ∧
        (r.withSteps (r.config.maxMatchSteps + k)).find req = r.find req) ∨
      (r.find req).exhausted = true ∧ ∃ v v' : Verdict α, (r.find req).result = v.result ∧
        ((r.withSteps (r.config.maxMatchSteps + k)).find req).result = v'.result ∧
        v.found? = none ∧ v.allowed <+: v'.allowed := by
  have hstart : (⟨r.config.maxMatchSteps, false, {}⟩ : Progress (Verdict α)).withMore k
      = ⟨r.config.maxMatchSteps + k, false, {}⟩ := rfl
  have hmore := (req.visitor : Visitor (Entry α) (Verdict α)).play_withMore k (r.events req.host req.path)
    (p := ⟨r.config.maxMatchSteps, false, {}⟩) rfl
  have hkeeps := play_visitor_keeps req (r.events req.host req.path)
    (p := ⟨r.config.maxMatchSteps, false, {}⟩) rfl rfl
  have hevents : (r.withSteps (r.config.maxMatchSteps + k)).events req.host req.path
      = r.events req.host req.path := rfl
  have hsteps : (r.withSteps (r.config.maxMatchSteps + k)).config.maxMatchSteps
      = r.config.maxMatchSteps + k := rfl
  rw [hstart] at hmore
  rw [find_eq_play, find_eq_play, hevents, hsteps]
  rcases hmore with ⟨hexhausted, hplay⟩ | ⟨hexhausted, rest, hplay⟩
  · refine Or.inl ⟨hexhausted, ?_⟩
    rw [hplay]
    rfl
  · have hnone := hkeeps.2 hexhausted
    refine Or.inr ⟨hexhausted, _, _, rfl, rfl, hnone, ?_⟩
    rw [hplay]
    exact (play_visitor_keeps req rest (p := ⟨k, false, _⟩) rfl hnone).1

/-- Of two routers with the same registrations, of which the second one may take more steps for a
search: a search that does not run out of steps in the first one gives the same in the second one, a
route that is found stays found, and methods that are allowed stay so and in their order. -/
theorem larger_budget_extends (factory : RuleFactory) (config : Config) {steps steps' : Nat}
    (hle : steps ≤ steps') (routes : List (Route α)) (req : Request) {r r' : Router α}
    (hr : r = routes.foldl registered (empty factory { config with maxMatchSteps := steps }))
    (hr' : r' = routes.foldl registered (empty factory { config with maxMatchSteps := steps' })) :
    ((r.find req).exhausted = false → r'.find req = r.find req) ∧
      (∀ e captures, (r.find req).result = .found e captures →
        (r.find req).exhausted = false ∧ (r'.find req).result = .found e captures) ∧
      ∀ allowed, (r.find req).result = .methodNotAllowed allowed →
        (∃ e captures, (r'.find req).result = .found e captures) ∨
          ∃ more, (r'.find req).result = .methodNotAllowed (allowed ++ more) := by
  have hempty : ∀ n, (empty factory { config with maxMatchSteps := n } : Router α)
      = (empty factory config).withSteps n := fun _ => rfl
  rw [hempty, foldl_registered_withSteps] at hr hr'
  obtain ⟨k, rfl⟩ := Nat.exists_eq_add_of_le hle
  have hmore : r' = r.withSteps (r.config.maxMatchSteps + k) := by
    rw [hr', hr]
    rfl
  rw [hmore]
  rcases r.find_withMore req k with
    ⟨hexhausted, hsame⟩ | ⟨hexhausted, v, v', hresult, hresult', hnone, hallowed⟩
  · rw [hsame]
    refine ⟨fun _ => rfl, fun e captures h => ⟨hexhausted, h⟩, fun allowed h => Or.inr ⟨[], ?_⟩⟩
    rw [List.append_nil]
    exact h
  · rw [hresult, hresult', hexhausted]
    refine ⟨nofun, fun e captures h => ?_, fun allowed h => v.result_of_prefix hnone hallowed h⟩
    have hfound := congrArg MatchResult.found? h
    rw [result_found?, hnone] at hfound
    cases hfound

/-- Two routes for the segments of one kind, the first of which does not take `GET`. -/
def contest : List (Route String) :=
  [.new [.post] (.ofPath "/:id(int)") "number", .new [.get] (.ofPath "/:name") "name"]

/-- The router of the two routes whose searches take a number of steps. -/
def contestWith (steps : Nat) : Router String :=
  contest.foldl registered (empty .default { maxMatchSteps := steps })

theorem methodNotAllowed_of_allowedMethods {result : MatchResult α} {allowed : List Method}
    (h : result.allowedMethods = allowed) (hne : allowed ≠ []) : result = .methodNotAllowed allowed := by
  cases result with
  | methodNotAllowed methods => rw [← h, MatchResult.allowedMethods]
  | found e captures => exact absurd h.symm hne
  | notFound => exact absurd h.symm hne

/-- With one step a search knows only that another method is allowed, and with two it comes by the
second route. -/
theorem larger_budget_extends_contest :
    ((contestWith 1).find ⟨.get, "", "/7", .empty⟩).exhausted = true ∧
      ((contestWith 1).find ⟨.get, "", "/7", .empty⟩).result = .methodNotAllowed [.post] ∧
      ((∃ e captures, ((contestWith 2).find ⟨.get, "", "/7", .empty⟩).result = .found e captures) ∨
        ∃ more, ((contestWith 2).find ⟨.get, "", "/7", .empty⟩).result
          = .methodNotAllowed ([.post] ++ more)) ∧
      ((contestWith 2).find ⟨.get, "", "/7", .empty⟩).exhausted = false ∧
      (contestWith 9).find ⟨.get, "", "/7", .empty⟩ = (contestWith 2).find ⟨.get, "", "/7", .empty⟩ := by
  have hruns : ((contestWith 1).find ⟨.get, "", "/7", .empty⟩).exhausted = true ∧
      ((contestWith 1).find ⟨.get, "", "/7", .empty⟩).result.allowedMethods = [.post] ∧
      ((contestWith 2).find ⟨.get, "", "/7", .empty⟩).exhausted = false := by decide +kernel
  obtain ⟨hexhausted, hallowed, hsettled⟩ := hruns
  have hrefused := methodNotAllowed_of_allowedMethods hallowed (List.cons_ne_nil _ _)
  have hone : contestWith 1 = contest.foldl registered (empty .default { maxMatchSteps := 1 }) := rfl
  have htwo : contestWith 2 = contest.foldl registered (empty .default { maxMatchSteps := 2 }) := rfl
  have hnine : contestWith 9 = contest.foldl registered (empty .default { maxMatchSteps := 9 }) := rfl
  obtain ⟨-, -, hmore⟩ := larger_budget_extends .default {} (by decide : 1 ≤ 2) contest
    ⟨.get, "", "/7", .empty⟩ hone htwo
  obtain ⟨hsame, -, -⟩ := larger_budget_extends .default {} (by decide : 2 ≤ 9) contest
    ⟨.get, "", "/7", .empty⟩ htwo hnine
  exact ⟨hexhausted, hrefused, hmore _ hrefused, hsettled, hsame hsettled⟩

end Router
end UriRouting

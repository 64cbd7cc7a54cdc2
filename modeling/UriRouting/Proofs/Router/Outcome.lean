import UriRouting.Proofs.Http.Methods
import UriRouting.Proofs.Router.Survey
/-!
The outcome of a search.

A search breaks off at the first route that it accepts, and it gathers the methods of the routes that
do not take the method on the way. Both can be told from the list of routes that a survey writes down:
the search finds the first one that is accepted, and if there is none it has been through them all.
-/

namespace UriRouting

variable {α : Type}

/-! ## Single routes -/

/-- A route that a walk comes by, with what was captured on the way. -/
abbrev Visited (α : Type) := Entry α × Captures

namespace Request

/-- Whether a request takes a route: the route takes the method, and its constraints pass. -/
def accepts (req : Request) (v : Visited α) : Bool :=
  v.1.route.allows req.method && v.1.route.constraintsPass (req.context v.2)

/-- The methods of the routes that do not take the method, one route after the other. -/
def otherMethods (req : Request) (visits : List (Visited α)) : List Method :=
  (visits.filter fun v => !v.1.route.allows req.method).flatMap fun v => v.1.route.methods

theorem otherMethods_cons (req : Request) (v : Visited α) (visits : List (Visited α)) :
    req.otherMethods (v :: visits) = (if v.1.route.allows req.method then [] else v.1.route.methods)
      ++ req.otherMethods visits := by
  unfold otherMethods
  cases h : v.1.route.allows req.method with
  | true => simp [h]
  | false => simp [h]

theorem mem_otherMethods {req : Request} {visits : List (Visited α)} {m : Method} :
    m ∈ req.otherMethods visits ↔
      ∃ v ∈ visits, v.1.route.allows req.method = false ∧ m ∈ v.1.route.methods := by
  unfold otherMethods
  simp only [List.mem_flatMap, List.mem_filter, Bool.not_eq_true', and_assoc]

theorem consider_run (req : Request) (e : Entry α) (captures : Captures) (v : Verdict α) :
    req.consider e captures v =
      if e.route.allows req.method then
        let v := v.note (logConstraints (req.context captures) e.route.constraints)
        if e.route.constraintsPass (req.context captures) then
          .error () { v with found? := some (e, captures) }
        else .ok () v
      else .ok () { v with allowed := Method.union v.allowed e.route.methods } := by
  show EStateM.run (req.consider e captures) v = _
  unfold consider
  cases e.route.allows req.method with
  | false => rfl
  | true =>
    simp only [Bool.not_true, Bool.false_eq_true, if_false, if_true, EStateM.run_bind,
      EStateM.run_modify]
    cases e.route.constraintsPass (req.context captures) <;> rfl

end Request

/-! ## Searches -/

/-- What a search that had steps enough has come to, after it began with some methods. -/
structure Settled (req : Request) (visits : List (Visited α)) (methods : List Method)
    (v : Verdict α) : Prop where
  found : v.found? = visits.find? req.accepts
  allowed : visits.find? req.accepts = none →
    v.allowed = Method.union methods (req.otherMethods visits)

/-- A route that is not accepted adds at most its methods. -/
theorem Settled.cons {req : Request} {visits : List (Visited α)} {methods more : List Method}
    {v : Verdict α} (h : Settled req visits (Method.union methods more) v) {found : Visited α}
    (hmore : more = if found.1.route.allows req.method then [] else found.1.route.methods)
    (haccepts : req.accepts found = false) : Settled req (found :: visits) methods v := by
  have hfind : (found :: visits).find? req.accepts = visits.find? req.accepts :=
    List.find?_cons_of_neg (by simp [haccepts])
  refine ⟨?_, fun hnone => ?_⟩
  · rw [h.found, hfind]
  · rw [hfind] at hnone
    rw [h.allowed hnone, Request.otherMethods_cons, ← hmore, Method.union, Method.union,
      Method.union, List.foldl_append]

/-- A search that nothing has been found by yet finds the first route that it accepts. -/
theorem play_visitor (req : Request) {es : List (Event (Entry α))} {p : Progress (Verdict α)}
    (hfound : p.seen.found? = none)
    (h : (req.visitor.play es p).2.exhausted = false) :
    Settled req (es.filterMap Event.end?) p.seen.allowed (req.visitor.play es p).2.seen := by
  induction es generalizing p with
  | nil => exact ⟨hfound, fun _ => rfl⟩
  | cons e es ih =>
    cases e with
    | attempt =>
      obtain ⟨stepsLeft, exhausted, seen⟩ := p
      cases stepsLeft with
      | zero => cases h
      | succ n => exact ih (p := ⟨n, exhausted, seen⟩) hfound h
    | question e => exact ih (p := { p with seen := p.seen.note [.rule e] }) hfound h
    | visit found captures =>
      have hend : (Event.visit found captures :: es).filterMap Event.end?
          = (found, captures) :: es.filterMap Event.end? := rfl
      have hplay : req.visitor.play (.visit found captures :: es) p
          = match req.consider found captures p.seen with
            | .ok _ seen => req.visitor.play es { p with seen }
            | .error _ seen => (false, { p with seen }) := by
        rw [Visitor.play]
        cases hvisit : req.consider found captures p.seen <;>
          rw [show req.visitor.visit found captures p.seen = _ from hvisit]
      rw [hend, hplay, Request.consider_run]
      rw [hplay, Request.consider_run] at h
      cases hallows : found.route.allows req.method with
      | false =>
        simp only [hallows, Bool.false_eq_true, if_false] at h ⊢
        have haccepts : req.accepts (found, captures) = false := by simp [Request.accepts, hallows]
        have hrest := ih (p := ⟨p.stepsLeft, p.exhausted,
          { p.seen with allowed := Method.union p.seen.allowed found.route.methods }⟩) hfound h
        exact hrest.cons (by rw [hallows, if_neg Bool.false_ne_true]) haccepts
      | true =>
        simp only [hallows, if_true] at h ⊢
        cases hpass : found.route.constraintsPass (req.context captures) with
        | true =>
          have haccepts : req.accepts (found, captures) = true := by
            simp [Request.accepts, hallows, hpass]
          simp only [if_true]
          refine ⟨?_, fun hnone => ?_⟩
          · rw [List.find?_cons_of_pos haccepts]
          · rw [List.find?_cons_of_pos haccepts] at hnone
            cases hnone
        | false =>
          simp only [hpass, Bool.false_eq_true, if_false] at h ⊢
          have haccepts : req.accepts (found, captures) = false := by
            simp [Request.accepts, hallows, hpass]
          have hrest : Settled req _ (Method.union p.seen.allowed []) _ :=
            ih (p := ⟨p.stepsLeft, p.exhausted,
              p.seen.note (logConstraints (req.context captures) found.route.constraints)⟩) hfound h
          exact hrest.cons (by rw [hallows, if_pos rfl]) haccepts

theorem result_found? (v : Verdict α) : v.result.found? = v.found? := by
  rw [Verdict.result]
  cases v.found? with
  | some found => rfl
  | none =>
    show (MatchResult.ofAllowed v.allowed).found? = none
    rw [MatchResult.ofAllowed]
    split <;> rfl

namespace Router

/-- A search that had steps enough has settled on the candidates of its request. -/
theorem find_settled {r : Router α} {req : Request} (h : (r.find req).exhausted = false) :
    ∃ v : Verdict α, (r.find req).result = v.result ∧
      Settled req ((r.candidates req.host req.path).map fun c => (c.entry, c.captures)) [] v := by
  have hwalked := r.walked_toProgress req.visitor req.host req.path r.config.maxMatchSteps {}
  have hexhausted : (req.visitor.play (r.events req.host req.path)
      ⟨r.config.maxMatchSteps, false, {}⟩).2.exhausted = false := by
    rw [← hwalked]
    exact h
  have hsettled := play_visitor req rfl hexhausted
  rw [filterMap_end?_routerEvents, ← hwalked] at hsettled
  exact ⟨_, rfl, hsettled⟩

/-- In a list in order, the first element with a property is the least one. -/
theorem least_of_find? {γ : Type} {R : γ → γ → Prop} {l : List γ} (h : l.Pairwise R) {p : γ → Bool}
    {a : γ} (ha : l.find? p = some a) : ∀ b ∈ l, p b = true → b = a ∨ R a b := by
  obtain ⟨-, before, after, rfl, hbefore⟩ := List.find?_eq_some_iff_append.mp ha
  intro b hb hp
  rcases List.mem_append.mp hb with hb | hb
  · have hnot := hbefore b hb
    rw [hp] at hnot
    cases hnot
  · rcases List.mem_cons.mp hb with rfl | hb
    · exact Or.inl rfl
    · obtain ⟨-, hafter, -⟩ := List.pairwise_append.mp h
      exact Or.inr ((List.pairwise_cons.mp hafter).1 b hb)

theorem lt_iff_of_pairwise {γ : Type} {R : γ → γ → Prop} (hR : ∀ {a b}, R a b → ¬ R b a)
    {l : List γ} (h : l.Pairwise R) {i j : Nat} (hi : i < l.length) (hj : j < l.length) :
    i < j ↔ R l[i] l[j] := by
  have hpairs := List.pairwise_iff_getElem.mp h
  refine ⟨hpairs i j hi hj, fun hij => ?_⟩
  rcases Nat.lt_trichotomy i j with hlt | heq | hgt
  · exact hlt
  · subst heq
    exact absurd hij (hR hij)
  · exact absurd (hpairs j i hj hi hgt) (hR hij)

/-- A walk comes by the candidates in order, and a search finds the least of those that it accepts. -/
theorem Reachable.priority {r : Router α} (h : Reachable r)
    (hplain : ∀ p ∈ r.ruleParams, p.isPlain = true) (req : Request) :
    ∃ visited : List (Candidate α),
      (∀ c, c ∈ visited ↔ c.Matches r req.host req.path) ∧
      (∃ enough, ∀ steps, enough ≤ steps → (r.survey req.host req.path steps).exhausted = false) ∧
      (∀ steps, (r.survey req.host req.path steps).exhausted = false →
        (r.survey req.host req.path steps).seen = visited.map fun c => (c.entry, c.captures)) ∧
      (∀ i j (hi : i < visited.length) (hj : j < visited.length),
        i < j ↔ r.Before visited[i] visited[j]) ∧
      ((r.find req).exhausted = false →
        (∀ e captures, (r.find req).result.found? = some (e, captures) →
          ∃ c ∈ visited, c.entry = e ∧ c.captures = captures ∧ req.accepts (e, captures) = true ∧
            ∀ c' ∈ visited, req.accepts (c'.entry, c'.captures) = true → c' = c ∨ r.Before c c') ∧
        ((r.find req).result.found? = none →
          ∀ c ∈ visited, req.accepts (c.entry, c.captures) = false)) := by
  have hlawful := lawful_of_plain hplain
  have hpairs := h.sound.candidates_pairwise hlawful req.host req.path
  refine ⟨r.candidates req.host req.path, fun c => h.sound.mem_candidates hlawful, ?_,
    fun steps => survey_seen, fun i j hi hj => lt_iff_of_pairwise Before.asymm hpairs hi hj, ?_⟩
  · exact ⟨_, fun steps hle => (r.survey_exhausted req.host req.path steps).mpr hle⟩
  intro hexhausted
  obtain ⟨v, hresult, hfound, -⟩ := find_settled hexhausted
  rw [hresult, result_found?, hfound, List.find?_map]
  refine ⟨fun e captures he => ?_, fun hnone c hc => ?_⟩
  · obtain ⟨c, hc, heq⟩ := Option.map_eq_some_iff.mp he
    cases heq
    have haccepts := List.find?_some hc
    exact ⟨c, List.mem_of_find?_eq_some hc, rfl, rfl, haccepts, least_of_find? hpairs hc⟩
  · have hrejects := List.find?_eq_none.mp (Option.map_eq_none_iff.mp hnone) c hc
    simpa using hrejects

/-- Three routes take one path, and the one that is found comes first of them. -/
theorem priority_shelf : Reachable shelf ∧ (∀ p ∈ shelf.ruleParams, p.isPlain = true) ∧
    ∃ visited : List (Candidate String), visited.length = 3 ∧
      (∀ i j (hi : i < visited.length) (hj : j < visited.length),
        i < j ↔ shelf.Before visited[i] visited[j]) ∧
      ∃ c ∈ visited, c.entry.position = 0 ∧ ∀ c' ∈ visited,
        Request.accepts ⟨.get, "api.a.org", "/books/7", .empty⟩ (c'.entry, c'.captures) = true →
          c' = c ∨ shelf.Before c c' := by
  have hruns : shelf.ruleParams.all Param.isPlain = true ∧
      (shelf.survey "api.a.org" "/books/7" 20).exhausted = false ∧
      (shelf.survey "api.a.org" "/books/7" 20).seen.length = 3 ∧
      (shelf.find ⟨.get, "api.a.org", "/books/7", .empty⟩).exhausted = false ∧
      (shelf.find ⟨.get, "api.a.org", "/books/7", .empty⟩).result.found?.map
        (fun found => found.1.position) = some 0 := by decide +kernel
  obtain ⟨hplain, hsurvey, hlength, hexhausted, hfound⟩ := hruns
  obtain ⟨visited, -, -, hseen, horder, hfind⟩ := shelf_reachable.priority
    (List.all_eq_true.mp hplain) ⟨.get, "api.a.org", "/books/7", .empty⟩
  dsimp only at hseen hfind
  have hvisited := congrArg List.length (hseen 20 hsurvey)
  rw [List.length_map] at hvisited
  obtain ⟨⟨e, captures⟩, he, hposition⟩ := Option.map_eq_some_iff.mp hfound
  obtain ⟨c, hc, rfl, -, -, hleast⟩ := (hfind hexhausted).1 e captures he
  exact ⟨shelf_reachable, List.all_eq_true.mp hplain, visited, hvisited.symm.trans hlength, horder,
    c, hc, hposition, hleast⟩

end Router

end UriRouting

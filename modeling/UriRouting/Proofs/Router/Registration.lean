import UriRouting.Router.Search
/-!
What registering a route does to a router.

`register_cases` says everything that can happen: the route is refused and the router is left as it
was, or the route has a free name, a template that reads and compiles, and the router is extended by
it. A registration works on the trie in place, so that the first case is not a matter of course:
every step that can fail comes before the first one that changes something.
-/

namespace UriRouting
namespace Router

variable {α : Type}

/-- Why a route is accepted, with its template and the rows of keys that stands for. -/
structure Accepts (r : Router α) (route : Route α) (template : Template)
    (compiled : CompiledTemplate) : Prop where
  nameFree : ∀ name, route.name? = some name → r.names.contains name = false
  reads : Template.ofString route.template.source = .ok template
  compiles : (r.compilerFor route).compile template = .ok compiled

def entryFor (r : Router α) (route : Route α) (template : Template) : Entry α :=
  ⟨r.size, route, template⟩

def extended (r : Router α) (route : Route α) (template : Template) (compiled : CompiledTemplate) :
    Router α where
  root := (RouteTrie.attachAll (r.entryFor route template) compiled.hosts compiled.paths r.root).1
  entries := r.entries ++ [r.entryFor route template]
  names := match route.name? with
    | some name => r.names.insert name r.size
    | none => r.names
  factory := r.factory
  config := r.config

/-! ## Single steps -/

theorem merge_error {c : Compiler} {e : Entry α} {fault : CompileError}
    (h : c.compile e.template = .error fault) (r : Router α) :
    onRoot (c.merge e) r = .error fault r := by
  unfold onRoot Compiler.merge
  rw [h]
  rfl

theorem merge_ok {c : Compiler} {e : Entry α} {compiled : CompiledTemplate}
    (h : c.compile e.template = .ok compiled) (r : Router α) :
    onRoot (c.merge e) r = .ok (RouteTrie.attachAll e compiled.hosts compiled.paths r.root).2
      { r with root := (RouteTrie.attachAll e compiled.hosts compiled.paths r.root).1 } := by
  unfold onRoot Compiler.merge
  rw [h]
  rfl

theorem compileRoute_run (route : Route α) (r : Router α) :
    compileRoute route r = match Template.ofString route.template.source with
      | .error fault => .error (.template fault) r
      | .ok template => match (r.compilerFor route).compile template with
        | .error fault => .error fault r
        | .ok compiled =>
          let merged := RouteTrie.attachAll (r.entryFor route template) compiled.hosts compiled.paths
            r.root
          .ok (r.entryFor route template, merged.2) { r with root := merged.1 } := by
  show EStateM.run (compileRoute route) r = _
  unfold compileRoute
  cases Template.ofString route.template.source with
  | error fault => rfl
  | ok template =>
    show EStateM.run (onRoot ((r.compilerFor route).merge (r.entryFor route template)) >>= _) r = _
    rw [EStateM.run_bind, EStateM.run]
    cases hcompile : (r.compilerFor route).compile template with
    | error fault =>
      rw [merge_error hcompile]
      simp only [hcompile]
    | ok compiled =>
      rw [merge_ok hcompile]
      simp only [hcompile]
      rfl

/-! ## The whole registration -/

theorem register_run (route : Route α) (r : Router α) :
    register route r = match route.name?.filter r.names.contains with
      | some name => .error (.nameTaken name) r
      | none => match compileRoute route r with
        | .error fault r' => .error (.template route.template.source fault) r'
        | .ok (entry, attached) r' =>
          .ok attached
            { r' with
              names := match route.name? with
                | some name => r'.names.insert name r'.size
                | none => r'.names
              entries := r'.entries ++ [entry] } := by
  show EStateM.run (register route) r = _
  unfold register
  cases hname : route.name? with
  | none =>
    simp only [EStateM.run_bind, EStateM.run_adaptExcept, Option.filter]
    rw [show compileRoute route r = (compileRoute route).run r from rfl]
    cases (compileRoute route).run r <;> rfl
  | some name =>
    simp only [EStateM.run_bind, EStateM.run_get, Option.filter]
    cases r.names.contains name with
    | true => rfl
    | false =>
      simp only [Bool.false_eq_true, if_false, EStateM.run_bind, EStateM.run_adaptExcept]
      rw [show compileRoute route r = (compileRoute route).run r from rfl]
      cases (compileRoute route).run r <;> rfl

/-- A route is refused without a trace, or accepted and added. -/
theorem register_cases (route : Route α) (r : Router α) :
    (∃ e, register route r = .error e r) ∨
      ∃ template compiled, r.Accepts route template compiled ∧
        register route r = .ok
          (RouteTrie.attachAll (r.entryFor route template) compiled.hosts compiled.paths r.root).2
          (r.extended route template compiled) := by
  rw [register_run, compileRoute_run]
  cases hname : route.name?.filter r.names.contains with
  | some name => exact Or.inl ⟨_, rfl⟩
  | none =>
    cases hread : Template.ofString route.template.source with
    | error fault => exact Or.inl ⟨_, rfl⟩
    | ok template =>
      cases hcompile : (r.compilerFor route).compile template with
      | error fault =>
        refine Or.inl ⟨.template route.template.source fault, ?_⟩
        simp only [hcompile]
      | ok compiled =>
        refine Or.inr ⟨template, compiled, ⟨fun name h => ?_, hread, hcompile⟩, ?_⟩
        · rw [h] at hname
          simpa [Option.filter] using hname
        · simp only [hcompile]
          rfl

/-! ## Reachable routers -/

/-- What registering a route leaves, whether or not the route is refused. -/
def registered (r : Router α) (route : Route α) : Router α :=
  match register route r with
  | .ok _ r' => r'
  | .error _ r' => r'

theorem registered_cases (r : Router α) (route : Route α) :
    r.registered route = r ∨ ∃ template compiled,
      r.Accepts route template compiled ∧ r.registered route = r.extended route template compiled := by
  unfold registered
  rcases register_cases route r with ⟨e, h⟩ | ⟨template, compiled, haccepts, h⟩
  · rw [h]
    exact Or.inl rfl
  · rw [h]
    exact Or.inr ⟨template, compiled, haccepts, rfl⟩

/-- A router that registering routes leads to, from an empty one. -/
inductive Reachable : Router α → Prop
  | empty (factory : RuleFactory) (config : Config) : Reachable (.empty factory config)
  | register {r : Router α} (h : Reachable r) (route : Route α) : Reachable (r.registered route)

/-- What holds of empty routers, and of a router with one more route if it held before, holds of every
reachable router. -/
theorem Reachable.invariant {P : Router α → Prop} (empty : ∀ factory config, P (.empty factory config))
    (extended : ∀ r route template compiled, r.Accepts route template compiled → P r →
      P (r.extended route template compiled)) {r : Router α} (h : Reachable r) : P r := by
  induction h with
  | empty factory config => exact empty factory config
  | @register r h route ih =>
    rcases r.registered_cases route with hr | ⟨template, compiled, haccepts, hr⟩
    · rw [hr]
      exact ih
    · rw [hr]
      exact extended r route template compiled haccepts ih

/-- A router with a few routes that share nodes, whose host and path have optional parts. -/
def shelf : Router String :=
  (empty .default {})
    |>.registered { Route.new [.get] ((UriTemplate.ofPath "/books/:id(int)[/:part]").withHost "[api.]a.org")
        "book" with name? := some "book" }
    |>.registered (.new [.post] (.ofPath "/books/:id(int)") "write")
    |>.registered (.new [.get] (.ofPath "/books/:id(between(1, 9.5))") "early")
    |>.registered (.new [.get] (.ofPath "/books/latest") "latest")

theorem shelf_reachable : Reachable shelf := by
  unfold shelf
  exact ((((Reachable.empty _ _).register _).register _).register _).register _

/-! ## Refused routes -/

/-- A route that is refused leaves the router as it was, however it is registered. -/
theorem refused_unchanged (r : Router α) :
    (∀ route e r', register route r = .error e r' → r' = r) ∧
      (∀ methods path action e r', tryInsert methods path action r = .error e r' → r' = r) ∧
      ∀ methods path action text r', insert methods path action r = .error text r' → r' = r := by
  have hregister : ∀ route e r', register route r = .error e r' → r' = r := by
    intro route e r' h
    rcases register_cases route r with ⟨e', h'⟩ | ⟨template, compiled, -, h'⟩
    · rw [h'] at h
      exact (EStateM.Result.error.inj h).2.symm
    · rw [h'] at h
      cases h
  refine ⟨hregister, fun methods path action e r' h => hregister _ e r' h, ?_⟩
  intro methods path action text r' h
  cases hm : tryInsert methods path action r with
  | ok n r₁ =>
    simp only [insert, EStateM.adaptExcept, hm] at h
    cases h
  | error e r₁ =>
    simp only [insert, EStateM.adaptExcept, hm] at h
    rw [← (EStateM.Result.error.inj h).2]
    exact hregister _ e r₁ hm

def errorOf? {ε σ β : Type} : EStateM.Result ε σ β → Option ε
  | .ok _ _ => none
  | .error e _ => some e

theorem exists_of_errorOf? {ε σ β : Type} {result : EStateM.Result ε σ β} {e : ε} {P : σ → Prop}
    (h : errorOf? result = some e) (hP : ∀ s, result = .error e s → P s) :
    ∃ s, result = .error e s ∧ P s := by
  cases result with
  | ok b s => cases h
  | error e' s =>
    cases h
    exact ⟨s, rfl, hP s rfl⟩

/-- The path of the route is in order, and so is the first form of its host. -/
theorem refused_unchanged_shelf :
    (∃ r', register (Route.new [.get] ((UriTemplate.ofPath "/x[/:y]").withHost "[:z(other).]a.org") "x")
        shelf = .error (.template "[:z(other).]a.org/x[/:y]" (.rule (.unknown "other"))) r' ∧ r' = shelf) ∧
      (∃ r', tryInsert [.get] "/x[/:y(int(1))]" "x" shelf
        = .error (.template "/x[/:y(int(1))]" (.rule (.invalidParams "int" (.takesNone "int")))) r' ∧
        r' = shelf) ∧
      ∃ r', insert [.get] "/x/:y(other)" "x" shelf = .error
        "template \"/x/:y(other)\": unknown rule \"other\": pattern = \"/x/:y(other)\"" r' ∧
        r' = shelf := by
  refine ⟨?_, ?_, ?_⟩
  · exact exists_of_errorOf? (by decide +kernel) fun r' h => (refused_unchanged shelf).1 _ _ r' h
  · exact exists_of_errorOf? (by decide +kernel) fun r' h => (refused_unchanged shelf).2.1 _ _ _ _ r' h
  · exact exists_of_errorOf? (by decide +kernel) fun r' h => (refused_unchanged shelf).2.2 _ _ _ _ r' h

end Router
end UriRouting

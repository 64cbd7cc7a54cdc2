import UriRouting.Proofs.Router.Registration
import UriRouting.Proofs.StringTable
/-!
The names of registered routes.

A router keeps its names apart from its entries: a table gives for each name the place of its route.
`NamesKept` ties the table to the entries, and an accepted route keeps the two in step, as its name is
entered at the place that it is about to get. A refused route does not come that far. So a name always
leads to the one route that has it, and a later route cannot take the name over.
-/

namespace UriRouting

namespace Router

variable {α : Type}

/-- The table of names has for each name the place of the route with it. -/
def NamesKept (r : Router α) : Prop :=
  ∀ name i, r.names.find? name = some i ↔ ∃ e, r.entries[i]? = some e ∧ e.route.name? = some name

/-! ## One more route -/

section

variable {r : Router α} {route : Route α} {template : Template} {compiled : CompiledTemplate}

theorem find?_names_extended (name : String) :
    (r.extended route template compiled).names.find? name
      = if route.name? = some name then some r.size else r.names.find? name := by
  cases hname : route.name? with
  | none => simp [extended, hname]
  | some own =>
    have hfind : (r.names.insert own r.size).find? name
        = if name = own then some r.size else r.names.find? name := r.names.find?_alter own _ name
    simp only [extended, hname, hfind, Option.some.injEq, eq_comm]

theorem NamesKept.extended (h : r.NamesKept) (haccepts : r.Accepts route template compiled) :
    (r.extended route template compiled).NamesKept := by
  intro name i
  rw [find?_names_extended]
  show _ ↔ ∃ e, (r.entries ++ [r.entryFor route template])[i]? = some e ∧ e.route.name? = some name
  rcases Nat.lt_trichotomy i r.entries.length with hi | rfl | hi
  · rw [List.getElem?_append_left hi]
    by_cases hname : route.name? = some name
    · -- No route before has the name, as it was free.
      have hnone : r.names.find? name = none := by
        simpa [StringTable.contains] using haccepts.nameFree name hname
      have hold := h name i
      have hsize : r.size ≠ i := by show r.entries.length ≠ i; omega
      simpa [hname, hnone, hsize] using hold
    · rw [if_neg hname]
      exact h name i
  · have hend : ¬ r.names.find? name = some r.entries.length := by
      rw [h name]
      simp
    rw [List.getElem?_concat_length]
    by_cases hname : route.name? = some name
    · simp [hname, size, entryFor]
    · simp [hname, hend, entryFor]
  · have hpast : ¬ r.names.find? name = some i := by
      rw [h name, List.getElem?_eq_none (by omega)]
      simp
    have hnone : (r.entries ++ [r.entryFor route template])[i]? = none :=
      List.getElem?_eq_none (by rw [List.length_append, List.length_singleton]; omega)
    have hsize : r.size ≠ i := by show r.entries.length ≠ i; omega
    rw [hnone]
    by_cases hname : route.name? = some name
    · simp [hname, hsize]
    · simp [hname, hpast]

theorem Reachable.namesKept (h : Reachable r) : r.NamesKept := by
  refine h.invariant (P := NamesKept) (fun factory config => ?_) fun r route template compiled haccepts hr =>
    hr.extended haccepts
  intro name i
  simp [Router.empty]

end

/-! ## Looking up -/

section

variable {r : Router α}

theorem NamesKept.contains_iff (h : r.NamesKept) {name : String} :
    r.names.contains name = true ↔ ∃ e ∈ r.entries, e.route.name? = some name := by
  have hfind : r.names.contains name = true ↔ ∃ i, r.names.find? name = some i :=
    Option.isSome_iff_exists
  simp only [hfind, h name, List.mem_iff_getElem?]
  constructor
  · intro hplace
    obtain ⟨i, e, hi, hname⟩ := hplace
    exact ⟨e, ⟨i, hi⟩, hname⟩
  · intro hmem
    obtain ⟨e, ⟨i, hi⟩, hname⟩ := hmem
    exact ⟨i, e, hi, hname⟩

theorem NamesKept.named?_iff (h : r.NamesKept) {name : String} {e : Entry α} :
    r.named? name = some e ↔ e ∈ r.entries ∧ e.route.name? = some name := by
  rw [named?, Option.bind_eq_some_iff]
  constructor
  · intro hnamed
    obtain ⟨i, hplace, hi⟩ := hnamed
    obtain ⟨e', hi', hname⟩ := (h name i).mp hplace
    rw [hi, Option.some.injEq] at hi'
    exact ⟨List.mem_of_getElem? hi, hi' ▸ hname⟩
  · intro hmem
    obtain ⟨hmem, hname⟩ := hmem
    obtain ⟨i, hi⟩ := List.mem_iff_getElem?.mp hmem
    exact ⟨i, (h name i).mpr ⟨e, hi, hname⟩, hi⟩

/-- No two routes share a name. -/
theorem NamesKept.nodup (h : r.NamesKept) : (r.entries.filterMap (·.route.name?)).Nodup := by
  have hpairs : r.entries.Pairwise fun a b =>
      ∀ name, a.route.name? = some name → ∀ name', b.route.name? = some name' → name ≠ name' := by
    rw [List.pairwise_iff_getElem]
    intro i j hi hj hij name ha name' hb heq
    subst heq
    have hplace := (h name i).mpr ⟨_, List.getElem?_eq_getElem hi, ha⟩
    have hplace' := (h name j).mpr ⟨_, List.getElem?_eq_getElem hj, hb⟩
    rw [hplace, Option.some.injEq] at hplace'
    omega
  exact hpairs.filterMap _ fun a b hab name ha name' hb => hab name ha name' hb

/-! ## Later routes -/

/-- A name that is taken keeps its route when one more route is registered. -/
theorem NamesKept.named?_registered (h : r.NamesKept) {name : String} {e : Entry α}
    (hnamed : r.named? name = some e) (route : Route α) :
    (r.registered route).named? name = some e := by
  rcases r.registered_cases route with hr | ⟨template, compiled, haccepts, hr⟩
  · rw [hr]
    exact hnamed
  · obtain ⟨hmem, hname⟩ := h.named?_iff.mp hnamed
    rw [hr, (h.extended haccepts).named?_iff]
    exact ⟨List.mem_append_left _ hmem, hname⟩

theorem Reachable.named?_foldl (h : Reachable r) {name : String} {e : Entry α}
    (hnamed : r.named? name = some e) (later : List (Route α)) :
    (later.foldl registered r).named? name = some e := by
  induction later generalizing r with
  | nil => exact hnamed
  | cons route later ih => exact ih (h.register route) (h.namesKept.named?_registered hnamed route)

/-! ## Refused routes -/

theorem register_nameTaken_iff {route : Route α} {name : String} :
    (∃ r', register route r = .error (.nameTaken name) r') ↔
      route.name? = some name ∧ r.names.contains name = true := by
  rw [register_run]
  cases hfilter : route.name?.filter r.names.contains with
  | some taken =>
    obtain ⟨hname, htaken⟩ := Option.filter_eq_some_iff.mp hfilter
    simp only [hname, EStateM.Result.error.injEq, RouterError.nameTaken.injEq, Option.some.injEq]
    constructor
    · intro herror
      obtain ⟨r', rfl, -⟩ := herror
      exact ⟨rfl, htaken⟩
    · intro hown
      exact ⟨r, hown.1, rfl⟩
  | none =>
    have hfree : ¬ (route.name? = some name ∧ r.names.contains name = true) := by
      intro hown
      rw [Option.filter_eq_some_iff.mpr hown] at hfilter
      cases hfilter
    simp only [hfree, iff_false]
    intro herror
    obtain ⟨r', herror⟩ := herror
    cases hcompile : compileRoute route r <;> simp [hcompile] at herror

/-- A route is refused for its name or for its template. -/
theorem register_error_cases {route : Route α} {fault : RouterError} {r' : Router α}
    (h : register route r = .error fault r') :
    (∃ taken, fault = .nameTaken taken) ∨ (∃ error, fault = .template route.template.source error) ∧
      ∀ name, route.name? = some name → r.names.contains name = false := by
  cases hfilter : route.name?.filter r.names.contains with
  | some taken =>
    rw [register_run, hfilter] at h
    cases h
    exact Or.inl ⟨taken, rfl⟩
  | none =>
    have hfree : ∀ name, route.name? = some name → r.names.contains name = false := by
      intro name hname
      simpa [hname] using hfilter
    rw [register_run, hfilter] at h
    cases hcompile : compileRoute route r with
    | ok attached r₁ => simp [hcompile] at h
    | error error r₁ =>
      simp only [hcompile] at h
      cases h
      exact Or.inr ⟨⟨error, rfl⟩, hfree⟩

end

/-- The names of a router are those of its routes, each of one route, and lead to it. -/
structure Registry (r : Router α) : Prop where
  keys : ∀ name, name ∈ r.names.keys ↔ ∃ e ∈ r.entries, e.route.name? = some name
  distinct : (r.entries.filterMap (·.route.name?)).Nodup
  resolves : ∀ name e, r.named? name = some e ↔ e ∈ r.entries ∧ e.route.name? = some name

/-- Every reachable router has its names in order. A name keeps its route through all later
registrations. A route is refused for its name exactly if the name is taken; any other error carries the
source of its template, and the name of the route stays free. -/
theorem Reachable.registry {r : Router α} (h : Reachable r) :
    r.Registry ∧
      (∀ name e, r.named? name = some e →
        ∀ later : List (Route α), (later.foldl registered r).named? name = some e) ∧
      (∀ route name, (∃ r', Router.register route r = .error (.nameTaken name) r') ↔
        route.name? = some name ∧ name ∈ r.names.keys) ∧
      ∀ route fault r', Router.register route r = .error fault r' →
        (∀ taken, fault ≠ .nameTaken taken) →
          (∃ error, fault = .template route.template.source error) ∧
            ∀ name, route.name? = some name → name ∉ r'.names.keys := by
  have hkept := h.namesKept
  have hkeys : ∀ name, name ∈ r.names.keys ↔ r.names.contains name = true := fun name => StringTable.mem_keys_iff
  refine ⟨⟨fun name => ?_, hkept.nodup, fun name e => hkept.named?_iff⟩,
    fun name e hnamed later => h.named?_foldl hnamed later, fun route name => ?_,
    fun route fault r' herror hother => ?_⟩
  · rw [hkeys]
    exact hkept.contains_iff
  · rw [hkeys]
    exact register_nameTaken_iff
  · rcases register_error_cases herror with ⟨taken, htaken⟩ | ⟨htemplate, hfree⟩
    · exact absurd htaken (hother taken)
    · refine ⟨htemplate, fun name hname => ?_⟩
      rw [(refused_unchanged r).1 route fault r' herror, hkeys, hfree name hname]
      exact Bool.false_ne_true

def pageNamed (name path : String) : Route String :=
  { Route.new [.get] (.ofPath path) "page" with name? := some name }

/-- The name is looked at before the template: neither of the templates with an open parenthesis
reads. -/
theorem registry_shelf : Reachable shelf ∧
    (∃ e, shelf.named? "book" = some e ∧ e.position = 0 ∧
      ([pageNamed "book" "/other", pageNamed "other" "/other"].foldl registered shelf).named? "book"
        = some e) ∧
    (∃ r', register (pageNamed "book" "/x/:y(") shelf = .error (.nameTaken "book") r') ∧
    ∃ error r', register (pageNamed "draft" "/x/:y(") shelf = .error (.template "/x/:y(" error) r' ∧
      "draft" ∉ r'.names.keys := by
  obtain ⟨hregistry, hlater, htaken, hother⟩ := Reachable.registry shelf_reachable
  have hruns : (shelf.named? "book").map (·.position) = some 0 ∧ "book" ∈ shelf.names.keys ∧
      (errorOf? (register (pageNamed "draft" "/x/:y(") shelf)).any (fun
        | .nameTaken _ => false
        | _ => true) = true := by decide +kernel
  obtain ⟨hplace, hbook, hdraft⟩ := hruns
  obtain ⟨e, hnamed, hposition⟩ := Option.map_eq_some_iff.mp hplace
  obtain ⟨fault, hfault, hkind⟩ := (Option.any_eq_true _ _).mp hdraft
  obtain ⟨r', herror, -⟩ := exists_of_errorOf? (P := fun _ => True) hfault fun _ _ => trivial
  have hnot : ∀ taken, fault ≠ .nameTaken taken := by
    intro taken heq
    rw [heq] at hkind
    cases hkind
  obtain ⟨⟨error, rfl⟩, hfree⟩ := hother _ fault r' herror hnot
  refine ⟨shelf_reachable, ⟨e, hnamed, hposition, hlater "book" e hnamed _⟩,
    (htaken _ "book").mpr ⟨rfl, hbook⟩, error, r', herror, hfree "draft" rfl⟩

end Router
end UriRouting

import Mathlib.Data.List.Forall2
import UriRouting.Proofs.Route.Suffixes
import UriRouting.Proofs.StringTable
import UriRouting.Route.Collection
/-!
Routes in the groups around them.

A collection is filled from the inside to the outside, and each group works on a part of the one list. In the end
every route stands at the place where it is written, changed by the groups around it and by nothing else:
`RouteTree.collectAll_within`.
-/

namespace UriRouting

open Text

/-! ## What a group does to a route -/

namespace GroupOptions

variable {α : Type}

/-- A prefix with the groups it is one of: it does what a group with nothing else does. -/
def ofPrefix (segments : String) : GroupOptions := { segments? := some segments }

/-- What a group puts in front of a path: its prefix without the slashes at the ends, if anything is left. -/
def pathPrefix (o : GroupOptions) : String :=
  let trimmed := trimBoth UriTemplate.isSlash (o.segments?.getD "").toList
  if trimmed = [] then "" else "/" ++ String.ofList trimmed

theorem prefixPath_path_eq (t : UriTemplate) (segments : String) :
    (t.prefixPath segments).path = (ofPrefix segments).pathPrefix ++ t.path := by
  unfold UriTemplate.prefixPath pathPrefix ofPrefix
  dsimp only [Option.getD_some]
  split
  · exact String.empty_append.symm
  · rfl

theorem apply_ofPrefix (segments : String) (r : Route α) : (ofPrefix segments).apply r = r.prefixed segments := by
  have hsecure : { r.template.prefixPath segments with
      httpsOnly := false || (r.template.prefixPath segments).httpsOnly } = r.template.prefixPath segments := rfl
  unfold apply applyTemplate Route.prefixed ofPrefix
  rw [hsecure]
  rfl

theorem appendHost_congr {t t' : UriTemplate} (h : t.host? = t'.host?) (labels : String) :
    (t.appendHost labels).host? = (t'.appendHost labels).host? := by
  unfold UriTemplate.appendHost UriTemplate.withHost
  rw [h]

theorem foldl_appendHost_congr (hosts : List String) {t t' : UriTemplate} (h : t.host? = t'.host?) :
    (hosts.foldl .appendHost t).host? = (hosts.foldl .appendHost t').host? := by
  induction hosts generalizing t t' with
  | nil => exact h
  | cons host hosts ih => exact ih (appendHost_congr h host)

/-- A template with the prefix of a group. -/
def behindSegments (o : GroupOptions) (t : UriTemplate) : UriTemplate := o.segments?.elim t t.prefixPath

/-- A template with the host of a group. -/
def beforeHost (o : GroupOptions) (t : UriTemplate) : UriTemplate := o.host?.elim t t.appendHost

theorem apply_template (o : GroupOptions) (r : Route α) : (o.apply r).template =
    { o.beforeHost (o.behindSegments r.template) with
      httpsOnly := o.httpsOnly || (o.beforeHost (o.behindSegments r.template)).httpsOnly } := by
  unfold apply applyTemplate beforeHost behindSegments
  cases o.segments? <;> cases o.host? <;> rfl

theorem beforeHost_path (o : GroupOptions) (t : UriTemplate) : (o.beforeHost t).path = t.path := by
  unfold beforeHost
  cases o.host? <;> rfl

theorem apply_path (o : GroupOptions) (r : Route α) :
    (o.apply r).template.path = o.pathPrefix ++ r.template.path := by
  have hpath : (o.apply r).template.path = (o.behindSegments r.template).path := by
    rw [apply_template]
    exact o.beforeHost_path _
  rw [hpath, behindSegments]
  cases hsegments : o.segments? with
  | none =>
    have hempty : o.pathPrefix = "" := by
      rw [pathPrefix, hsegments]
      rfl
    rw [hempty, String.empty_append]
    rfl
  | some segments =>
    have hsame : o.pathPrefix = (ofPrefix segments).pathPrefix := by
      rw [pathPrefix, hsegments]
      rfl
    rw [hsame]
    exact prefixPath_path_eq r.template segments

theorem apply_host? (o : GroupOptions) (r : Route α) :
    (o.apply r).template.host? = (o.host?.toList.foldl .appendHost r.template).host? := by
  have hsegments : (o.behindSegments r.template).host? = r.template.host? := by
    unfold behindSegments
    cases o.segments? with
    | none => rfl
    | some segments => exact r.template.prefixPath_host segments
  rw [apply_template]
  dsimp only
  unfold beforeHost
  cases o.host? with
  | none => exact hsegments
  | some host => exact appendHost_congr hsegments host

theorem apply_httpsOnly (o : GroupOptions) (r : Route α) :
    (o.apply r).template.httpsOnly = (o.httpsOnly || r.template.httpsOnly) := by
  have hhost : ∀ t : UriTemplate, (o.beforeHost t).httpsOnly = t.httpsOnly := by
    intro t
    unfold beforeHost
    cases o.host? <;> rfl
  have hsegments : (o.behindSegments r.template).httpsOnly = r.template.httpsOnly := by
    unfold behindSegments
    cases o.segments? with
    | none => rfl
    | some segments =>
      dsimp only [Option.elim_some, UriTemplate.prefixPath]
      split <;> rfl
  rw [apply_template, hhost, hsegments]

theorem apply_attributes (o : GroupOptions) (r : Route α) (key : String) :
    (o.apply r).attributes.find? key = (r.attributes.find? key).or (o.attributes.find? key) :=
  r.attributes.find?_foldl_insertIfNew _ key

end GroupOptions

/-! ## Routes in groups -/

variable {α : Type}

/-- What a route becomes in the groups around it, which are listed from the innermost to the outermost. -/
structure Route.Within (around : List GroupOptions) (r built : Route α) : Prop where
  /-- The prefixes stand in front of the path, the outermost first. -/
  path : built.template.path = String.join (around.reverse.map GroupOptions.pathPrefix) ++ r.template.path
  /-- The hosts stand behind the host, the innermost first. -/
  host : built.template.host? = ((around.filterMap GroupOptions.host?).foldl .appendHost r.template).host?
  httpsOnly : built.template.httpsOnly = (around.any GroupOptions.httpsOnly || r.template.httpsOnly)
  middleware : built.middleware = around.reverse.flatMap GroupOptions.middleware ++ r.middleware
  constraints : built.constraints = around.reverse.flatMap GroupOptions.constraints ++ r.constraints
  /-- An attribute is the route's own, or else that of the innermost group which has it. -/
  attributes : ∀ key, built.attributes.find? key
    = (r.attributes.find? key).or (around.findSome? fun o => o.attributes.find? key)
  name : built.name? = r.name?
  methods : built.methods = r.methods
  action : built.action = r.action
  variableRules : built.variableRules = r.variableRules

/-- A route goes through the groups around it, from the innermost to the outermost. -/
def Route.throughGroups (r : Route α) (around : List GroupOptions) : Route α :=
  around.foldl (fun r o => o.apply r) r

theorem Route.within_nil (r : Route α) : r.Within [] r where
  path := String.empty_append.symm
  host := rfl
  httpsOnly := (Bool.false_or _).symm
  middleware := rfl
  constraints := rfl
  attributes _ := (Option.or_none).symm
  name := rfl
  methods := rfl
  action := rfl
  variableRules := rfl

/-- The innermost group comes before the others. -/
theorem Route.Within.cons {o : GroupOptions} {around : List GroupOptions} {r built : Route α}
    (h : (o.apply r).Within around built) : r.Within (o :: around) built where
  path := by
    rw [h.path, o.apply_path, List.reverse_cons, List.map_append, String.join_append, String.append_assoc]
    congr 1
  host := by
    have hhost := GroupOptions.foldl_appendHost_congr (around.filterMap GroupOptions.host?) (o.apply_host? r)
    rw [h.host, hhost, ← List.foldl_append]
    cases ho : o.host? with
    | none => rw [List.filterMap_cons_none ho]; rfl
    | some host => rw [List.filterMap_cons_some ho]; rfl
  httpsOnly := by
    rw [h.httpsOnly, o.apply_httpsOnly, List.any_cons, ← Bool.or_assoc, Bool.or_comm (around.any _)]
  middleware := by
    rw [h.middleware, List.reverse_cons, List.flatMap_append, List.flatMap_singleton, List.append_assoc]
    rfl
  constraints := by
    rw [h.constraints, List.reverse_cons, List.flatMap_append, List.flatMap_singleton, List.append_assoc]
    rfl
  attributes key := by
    rw [h.attributes, o.apply_attributes, Option.or_assoc, List.findSome?_cons]
    cases o.attributes.find? key <;> rfl
  name := h.name
  methods := h.methods
  action := h.action
  variableRules := h.variableRules

theorem Route.within_throughGroups (r : Route α) (around : List GroupOptions) :
    r.Within around (r.throughGroups around) := by
  induction around generalizing r with
  | nil => exact r.within_nil
  | cons o around ih => exact (ih (o.apply r)).cons

/-! ## Trees -/

/-- A route as it is written, with the groups around it from the innermost to the outermost. -/
structure PlacedRoute (α : Type) where
  around : List GroupOptions
  route : Route α

namespace RouteTree

mutual

/-- The routes of a tree that has groups around it. -/
def placed (around : List GroupOptions) : RouteTree α → List (PlacedRoute α)
  | route r => [⟨around, r⟩]
  | group options items => allPlaced (options :: around) items
  | nest segments items => allPlaced (.ofPrefix segments :: around) items

def allPlaced (around : List GroupOptions) : List (RouteTree α) → List (PlacedRoute α)
  | [] => []
  | t :: rest => t.placed around ++ allPlaced around rest

end

end RouteTree

namespace RouteCollection

theorem group_routes {c : RouteCollection α} {fill : RouteCollection α → RouteCollection α}
    {added : List (Route α)} (h : (fill c).routes = c.routes ++ added) (options : GroupOptions) :
    (c.group options fill).routes = c.routes ++ added.map options.apply := by
  unfold group
  dsimp only
  rw [h, List.take_left, List.drop_left]

theorem nest_routes (c : RouteCollection α) (segments : String) (other : RouteCollection α) :
    (c.nest segments other).routes = c.routes ++ other.routes.map (·.prefixed segments) := by
  unfold nest
  dsimp only
  induction other.routes generalizing c with
  | nil => exact (List.append_nil _).symm
  | cons r rest ih =>
    have hrest := ih (c.add (r.prefixed segments))
    exact hrest.trans (List.append_assoc _ _ _)

end RouteCollection

namespace RouteTree

mutual

/-- A tree adds its routes behind what is there. -/
theorem collect_routes (t : RouteTree α) (c : RouteCollection α) :
    (t.collect c).routes = c.routes ++ t.routes := by
  cases t with
  | route r =>
    rw [collect, routes]
    rfl
  | group options items =>
    rw [collect, routes]
    exact RouteCollection.group_routes (collectAll_routes items c) options
  | nest segments items =>
    rw [collect, routes, RouteCollection.nest_routes, collectAll_routes items]
    rfl

theorem collectAll_routes (ts : List (RouteTree α)) (c : RouteCollection α) :
    (collectAll ts c).routes = c.routes ++ allRoutes ts := by
  cases ts with
  | nil => rw [collectAll, allRoutes, List.append_nil]; rfl
  | cons t rest =>
    rw [collectAll, allRoutes, collectAll_routes rest, collect_routes t, List.append_assoc]

end

mutual

theorem routes_throughGroups (around : List GroupOptions) (t : RouteTree α) :
    t.routes.map (·.throughGroups around) = (t.placed around).map fun p => p.route.throughGroups p.around := by
  cases t with
  | route r => rw [routes, placed]; rfl
  | group options items =>
    rw [routes, placed, List.map_map, ← allRoutes_throughGroups]
    rfl
  | nest segments items =>
    rw [routes, placed, List.map_map, ← allRoutes_throughGroups]
    refine List.map_congr_left fun r _ => ?_
    rw [Function.comp_apply, ← GroupOptions.apply_ofPrefix]
    rfl

theorem allRoutes_throughGroups (around : List GroupOptions) (ts : List (RouteTree α)) :
    (allRoutes ts).map (·.throughGroups around)
      = (allPlaced around ts).map fun p => p.route.throughGroups p.around := by
  cases ts with
  | nil => rw [allRoutes, allPlaced]; rfl
  | cons t rest =>
    rw [allRoutes, allPlaced, List.map_append, List.map_append, routes_throughGroups, allRoutes_throughGroups]

end

/-- Filling a collection leaves what is in it alone. Behind that come the routes in the order in which they are
written, each as its own definition and the groups around it make it. -/
theorem collectAll_within (trees : List (RouteTree α)) (c : RouteCollection α) :
    ∃ built, (collectAll trees c).routes = c.routes ++ built ∧
      List.Forall₂ (fun p r => p.route.Within p.around r) (allPlaced [] trees) built := by
  refine ⟨(allPlaced [] trees).map fun p => p.route.throughGroups p.around, ?_, ?_⟩
  · have hroutes := allRoutes_throughGroups [] trees
    have hid : (allRoutes trees).map (·.throughGroups []) = allRoutes trees := List.map_id _
    rw [collectAll_routes, ← hroutes, hid]
  · rw [List.forall₂_map_right_iff]
    exact List.forall₂_same.mpr fun p _ => p.route.within_throughGroups p.around

/-- A group in a group, with a nest in it, and a route behind them. -/
def siteTrees : List (RouteTree String) :=
  [.group
      { segments? := some "/api", host? := some "example.com"
        attributes := .ofList [("area", "api"), ("level", "1")] }
    [.route (((Route.new [.get] (.ofPath "/users") "users").withHost "www").withAttribute "area" "users"),
      .group { segments? := some "admin/", httpsOnly := true, attributes := .ofList [("level", "2")] }
        [.nest "//" [.route (.new [.get] (.ofPath "/stats") "stats")]]],
    .route (.new [] (.ofPath "/") "home")]

theorem collectAll_siteTrees :
    ∃ built, (collectAll siteTrees {}).routes = [] ++ built ∧
      List.Forall₂ (fun p r => p.route.Within p.around r) (allPlaced [] siteTrees) built ∧
      built.map (fun r => (r.template.source, r.template.httpsOnly, r.attributes.entries)) =
        [("www.example.com/api/users", false, [("area", "users"), ("level", "1")]),
          ("example.com/api/admin/stats", true, [("area", "api"), ("level", "2")]), ("/", false, [])] := by
  obtain ⟨built, hroutes, hwithin⟩ := collectAll_within siteTrees {}
  have hbuilt : (collectAll siteTrees {}).routes = built := hroutes
  refine ⟨built, hroutes, hwithin, ?_⟩
  rw [← hbuilt]
  decide +kernel

end RouteTree

end UriRouting

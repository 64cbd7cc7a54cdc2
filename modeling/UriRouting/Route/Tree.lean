import UriRouting.Route.Basic
/-!
Routes defined in groups.

A group gives its routes a prefix, a host, middleware and more; groups and prefixes nest. The routes
of a tree come out in the order in which they are written, each changed by the groups around it from
the innermost to the outermost.
-/

namespace UriRouting

/-! ## Settings of a route -/

namespace Route

variable {α : Type}

def withHost (r : Route α) (host : String) : Route α := { r with template := r.template.withHost host }

def withHttpsOnly (r : Route α) : Route α := { r with template := { r.template with httpsOnly := true } }

def withName (r : Route α) (name : String) : Route α := { r with name? := some name }

def withMiddleware (r : Route α) (m : Middleware) : Route α := { r with middleware := r.middleware ++ [m] }

def withConstraint (r : Route α) (c : RouteConstraint) : Route α :=
  { r with constraints := r.constraints ++ [c] }

def withAttribute (r : Route α) (key value : String) : Route α :=
  { r with attributes := r.attributes.insert key value }

def prefixed (r : Route α) (segments : String) : Route α :=
  { r with template := r.template.prefixPath segments }

end Route

/-! ## Groups -/

/-- What the routes of a group have in common. -/
structure GroupOptions where
  segments? : Option String := none
  /-- Comes after a route's own host. -/
  host? : Option String := none
  httpsOnly : Bool := false
  middleware : List Middleware := []
  constraints : List RouteConstraint := []
  attributes : StringTable String := .empty

def GroupOptions.applyTemplate (o : GroupOptions) (t : UriTemplate) : UriTemplate :=
  let t := match o.segments? with
    | some segments => t.prefixPath segments
    | none => t
  let t := match o.host? with
    | some host => t.appendHost host
    | none => t
  { t with httpsOnly := o.httpsOnly || t.httpsOnly }

/-- A route in a group. What the group has comes first; of attributes, those of the route count. -/
def GroupOptions.apply {α : Type} (o : GroupOptions) (r : Route α) : Route α :=
  { r with
    template := o.applyTemplate r.template
    middleware := o.middleware ++ r.middleware
    constraints := o.constraints ++ r.constraints
    attributes := o.attributes.entries.foldl (fun t e => t.insertIfNew e.1 e.2) r.attributes }

/-! ## Trees -/

/-- A route, a group, or routes under a prefix. -/
inductive RouteTree (α : Type)
  | route (r : Route α)
  | group (options : GroupOptions) (items : List (RouteTree α))
  | nest (segments : String) (items : List (RouteTree α))

namespace RouteTree

variable {α : Type}

mutual

def routes : RouteTree α → List (Route α)
  | route r => [r]
  | group options items => (allRoutes items).map options.apply
  | nest segments items => (allRoutes items).map (·.prefixed segments)

def allRoutes : List (RouteTree α) → List (Route α)
  | [] => []
  | t :: rest => t.routes ++ allRoutes rest

end

end RouteTree

end UriRouting

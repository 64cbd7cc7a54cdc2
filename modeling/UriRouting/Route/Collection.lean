import UriRouting.Route.Tree
/-!
Collecting routes.

Routes, groups and nests go into one list. A group takes effect when its routes are all in the list: it changes
those from the place where it began.
-/

namespace UriRouting

/-- The routes defined so far, in order. -/
structure RouteCollection (α : Type) where
  routes : List (Route α) := []

namespace RouteCollection

variable {α : Type}

def add (c : RouteCollection α) (r : Route α) : RouteCollection α := ⟨c.routes ++ [r]⟩

/-- What `fill` adds becomes a group. -/
def group (c : RouteCollection α) (options : GroupOptions)
    (fill : RouteCollection α → RouteCollection α) : RouteCollection α :=
  let filled := fill c
  let start := c.routes.length
  ⟨filled.routes.take start ++ (filled.routes.drop start).map options.apply⟩

/-- Moves the routes of another collection under a prefix. -/
def nest (c : RouteCollection α) (segments : String) (other : RouteCollection α) : RouteCollection α :=
  ⟨other.routes.foldl (fun routes r => routes ++ [r.prefixed segments]) c.routes⟩

end RouteCollection

namespace RouteTree

variable {α : Type}

mutual

/-- Adds a tree to a collection. -/
def collect : RouteTree α → RouteCollection α → RouteCollection α
  | route r => fun c => c.add r
  | group options items => fun c => c.group options (collectAll items)
  | nest segments items => fun c => c.nest segments (collectAll items {})

def collectAll : List (RouteTree α) → RouteCollection α → RouteCollection α
  | [] => id
  | t :: rest => fun c => collectAll rest (t.collect c)

end

end RouteTree

end UriRouting

import UriRouting.Router.Basic
import UriRouting.Trie.Walk
/-!
Finding the route of a request.

A search follows the segments of the path and, where they end, the labels of the host. It visits the
routes it reaches one by one, and the first that takes the method and whose constraints pass wins.
Routes that do not take the method are remembered, so that a request fails for want of a route or
for its method only. Every node that is tried costs a step, and a search without steps left gives up.
-/

namespace UriRouting

open Text

/-! ## Requests -/

structure Request where
  method : Method
  host : String
  path : String
  headers : Headers

/-- A host without its port. Only a bracketed address may hold colons. -/
def withoutPort : List Char → List Char
  | '[' :: rest =>
    if ']' ∈ rest then '[' :: rest.takeWhile (· ≠ ']') ++ [']'] else '[' :: rest
  | cs => cs.takeWhile (· ≠ ':')

/-- A host without port and final periods, its ASCII letters in lower case. -/
def normalizeHost (host : String) : String :=
  String.ofList ((trimEnd (· = '.') (withoutPort host.toList)).map Char.toLower)

/-- The pieces of a text between separators; none of the empty text. -/
def piecesOf (sep : Char) (cs : List Char) : List String :=
  if cs = [] then [] else (splitAt sep cs).map String.ofList

/-- The labels of a host, the last one first. -/
def labelsOf (host : String) : List String := (piecesOf '.' (normalizeHost host).toList).reverse

/-- The segments of a path. Slashes at its ends do not count, but empty segments inside do. -/
def segmentsOfPath (path : String) : List String :=
  piecesOf '/' (trimBoth UriTemplate.isSlash path.toList)

/-! ## Walking -/

variable {α σ : Type}

def arriveAtHost (v : Visitor (Entry α) σ) (entries : List (Entry α)) : WalkM σ Unit :=
  entries.forM (Walk.arrive v)

/-- At the end of a path, routes for some hosts come before those for every host. -/
def arriveAtPath (v : Visitor (Entry α) σ) (labels : List String) (p : PathEnd α) :
    WalkM σ Unit := do
  p.hosts?.forM fun hosts => hosts.descend v (arriveAtHost v) labels
  arriveAtHost v p.entries

def Router.walk (r : Router α) (v : Visitor (Entry α) σ) (host path : String) : WalkM σ Unit :=
  r.root.descend v (arriveAtPath v (labelsOf host)) (segmentsOfPath path)

/-- What a walk with a number of steps leaves, whether or not it broke off. -/
def Router.walked (r : Router α) (v : Visitor (Entry α) σ) (host path : String) (steps : Nat)
    (seen : σ) : Walk σ :=
  match r.walk v host path { stepsLeft := steps, seen } with
  | .ok _ w => w
  | .error _ w => w

/-! ## Results -/

inductive MatchResult (α : Type)
  | found (entry : Entry α) (captures : Captures)
  | methodNotAllowed (allowed : List Method)
  | notFound

namespace MatchResult

def ofAllowed (allowed : List Method) : MatchResult α :=
  if allowed.isEmpty then notFound else methodNotAllowed allowed

def found? : MatchResult α → Option (Entry α × Captures)
  | found entry captures => some (entry, captures)
  | _ => none

def captures : MatchResult α → Captures
  | found _ captures => captures
  | _ => []

/-- Whether the method is allowed, where some route was reached. -/
def methodIsAllowed? : MatchResult α → Option Bool
  | found _ _ => some true
  | methodNotAllowed _ => some false
  | notFound => none

def allowedMethods : MatchResult α → List Method
  | methodNotAllowed allowed => allowed
  | _ => []

def allowHeader? : MatchResult α → Option String
  | methodNotAllowed allowed =>
    let value := ", ".intercalate (allowed.map Method.name)
    if Headers.isValue value then some value else none
  | _ => none

/-- The value of a variable; of several with one name, the first one. -/
def value? (r : MatchResult α) (name : String) : Option String := r.captures.lookup name

end MatchResult

inductive LogEntry
  | rule (e : Evaluation)
  | constraint (label : String) (passed : Bool) (captures : Captures)
  deriving Repr

structure Outcome (α : Type) where
  result : MatchResult α
  exhausted : Bool
  log : List LogEntry

/-! ## Searching -/

def Request.context (req : Request) (captures : Captures) : RequestContext :=
  ⟨req.method, req.host, req.path, req.headers, captures⟩

def Route.constraintsPass (route : Route α) (cx : RequestContext) : Bool :=
  route.constraints.all (·.passes cx)

def logConstraints (cx : RequestContext) : List RouteConstraint → List LogEntry
  | [] => []
  | c :: rest =>
    let passed := c.passes cx
    .constraint c.label passed cx.captures :: if passed then logConstraints cx rest else []

structure Verdict (α : Type) where
  allowed : List Method := []
  found? : Option (Entry α × Captures) := none
  /-- The questions asked, newest first. -/
  asked : List LogEntry := []

namespace Verdict

def note (v : Verdict α) (entries : List LogEntry) : Verdict α :=
  { v with asked := entries.reverse ++ v.asked }

/-- The result: a route that was found, or what its absence means. -/
def result (v : Verdict α) : MatchResult α :=
  match v.found? with
  | some (entry, captures) => .found entry captures
  | none => .ofAllowed v.allowed

end Verdict

/-- Looks at a route that the search reached. The search is over when the route takes the method and
its constraints pass. -/
def Request.consider (req : Request) (e : Entry α) (captures : Captures) :
    EStateM Unit (Verdict α) Unit := do
  if !e.route.allows req.method then
    modify fun v => { v with allowed := Method.union v.allowed e.route.methods }
  else
    let cx := req.context captures
    modify (·.note (logConstraints cx e.route.constraints))
    if e.route.constraintsPass cx then
      modify fun v => { v with found? := some (e, captures) }
      throw ()

def Request.visitor (req : Request) : Visitor (Entry α) (Verdict α) where
  visit := req.consider
  hear e v := v.note [.rule e]

def Router.find (r : Router α) (req : Request) : Outcome α :=
  let w := r.walked req.visitor req.host req.path r.config.maxMatchSteps {}
  ⟨w.seen.result, w.exhausted, w.seen.asked.reverse⟩

end UriRouting

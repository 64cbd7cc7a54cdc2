import UriRouting.Trie.Basic
import UriRouting.Trie.Compile
/-!
Routers: routes in the order of their registration, compiled into one trie.

The trie of paths has at each node the routes whose path ends there. Routes with a host are in a
second trie at that node, whose keys are the labels of the host from the last one on. Registering
works on the router in place: it finds the rows of keys of a template and attaches the route at each
of them. An action on a router leaves one whether or not it fails.
-/

namespace UriRouting

open Text

/-! ## Errors -/

inductive RouterError
  | template (source : String) (error : CompileError)
  | nameTaken (name : String)
  | unknownRoute (name : String)
  | missingVariable (route variableName : String)
  deriving DecidableEq, Repr

def RouterError.message : RouterError → String
  | template source e => "template " ++ quoted source ++ ": " ++ e.message
  | nameTaken name => "route name " ++ quoted name ++ " is already taken"
  | unknownRoute name => "no route named " ++ quoted name
  | missingVariable route variableName =>
    "route " ++ quoted route ++ " requires variable " ++ quoted variableName

/-! ## Entries -/

/-- A registered route: its place among all routes, and what its template says. -/
structure Entry (α : Type) where
  position : Nat
  route : Route α
  template : Template

/-- The routes whose path ends at a node: those for every host, and those for some. -/
structure PathEnd (α : Type) where
  entries : List (Entry α) := []
  hosts? : Option (Trie (List (Entry α))) := none

def holdsEntry {α : Type} (position : Nat) (entries : List (Entry α)) : Bool :=
  entries.any (·.position = position)

/-- Adds an entry to a list, unless its place is there. -/
def attach {α : Type} (e : Entry α) (entries : List (Entry α)) : List (Entry α) :=
  if holdsEntry e.position entries then entries else entries ++ [e]

namespace PathEnd

variable {α : Type}

def holds (position : Nat) (host? : Option (List Key)) (p : PathEnd α) : Bool :=
  match host? with
  | none => holdsEntry position p.entries
  | some host => ((p.hosts?.bind (Trie.find? host)).any (holdsEntry position))

def attach (e : Entry α) (host? : Option (List Key)) (p : PathEnd α) : PathEnd α :=
  match host? with
  | none => { p with entries := UriRouting.attach e p.entries }
  | some host =>
    { p with hosts? := some ((p.hosts?.getD (.single [])).insert [] (UriRouting.attach e) host) }

/-- Attaches an entry at each of several hosts, and counts those where it was not attached before. -/
def attachAll (e : Entry α) : List (Option (List Key)) → PathEnd α → PathEnd α × Nat
  | [], p => (p, 0)
  | host? :: rest, p =>
    let new := if p.holds e.position host? then 0 else 1
    let (p, n) := attachAll e rest (p.attach e host?)
    (p, new + n)

def hostNodes (p : PathEnd α) : Nat :=
  match p.hosts? with
  | none => 0
  | some t => t.nodeCount fun _ => 0

end PathEnd

/-- The hosts of a compiled template. Without a host it stands for every host. -/
def CompiledTemplate.hosts (t : CompiledTemplate) : List (Option (List Key)) :=
  match t.hosts? with
  | none => [none]
  | some hosts => hosts.map some

/-! ## Attaching -/

abbrev RouteTrie (α : Type) := Trie (PathEnd α)

namespace RouteTrie

variable {α : Type}

def endOf (path : List Key) (t : RouteTrie α) : PathEnd α := (Trie.find? path t).getD {}

def attachPath (e : Entry α) (hosts : List (Option (List Key))) (path : List Key) (t : RouteTrie α) :
    RouteTrie α :=
  Trie.insert {} (fun p => (p.attachAll e hosts).1) path t

/-- Attaches an entry at the ends of several paths and counts the alternatives, of path and host,
where it was not attached before. -/
def attachAll (e : Entry α) (hosts : List (Option (List Key))) :
    List (List Key) → RouteTrie α → RouteTrie α × Nat
  | [], t => (t, 0)
  | path :: rest, t =>
    let new := ((endOf path t).attachAll e hosts).2
    let (t, n) := attachAll e hosts rest (attachPath e hosts path t)
    (t, new + n)

end RouteTrie

/-- Compiles the template of an entry and attaches the entry at all its rows of keys. Gives the number
of alternatives where it is attached. -/
def Compiler.merge {α : Type} (c : Compiler) (e : Entry α) :
    EStateM CompileError (RouteTrie α) Nat := do
  let compiled ← ofExcept (c.compile e.template)
  modifyGet fun root => (RouteTrie.attachAll e compiled.hosts compiled.paths root).swap

/-! ## Routers -/

/-- Routes compiled into one trie. -/
structure Router (α : Type) where
  root : RouteTrie α
  /-- In the order of their registration. -/
  entries : List (Entry α)
  /-- The places of the entries that have names. -/
  names : StringTable Nat
  factory : RuleFactory
  config : Config

namespace Router

variable {α : Type}

def empty (factory : RuleFactory) (config : Config) : Router α := ⟨.single {}, [], .empty, factory, config⟩

def size (r : Router α) : Nat := r.entries.length

def nodeCount (r : Router α) : Nat := r.root.nodeCount PathEnd.hostNodes

def named? (r : Router α) (name : String) : Option (Entry α) :=
  (r.names.find? name).bind fun i => r.entries[i]?

def compilerFor (r : Router α) (route : Route α) : Compiler := ⟨r.factory, r.config, route.rulesFor⟩

/-! ### Registering -/

def onRoot {ε β : Type} (m : EStateM ε (RouteTrie α) β) : EStateM ε (Router α) β := fun r =>
  match m r.root with
  | .ok b root => .ok b { r with root }
  | .error e root => .error e { r with root }

/-- Compiles a route into the trie, and gives its entry with the number of alternatives where it is
attached. -/
def compileRoute (route : Route α) : EStateM CompileError (Router α) (Entry α × Nat) := do
  let r ← get
  let template ← ofExcept ((Template.ofString route.template.source).mapError .template)
  let entry : Entry α := ⟨r.size, route, template⟩
  let attached ← onRoot ((r.compilerFor route).merge entry)
  return (entry, attached)

/-- Registers a route. Gives the number of alternatives where it is attached. -/
def register (route : Route α) : EStateM RouterError (Router α) Nat := do
  if let some name := route.name? then
    if (← get).names.contains name then throw (.nameTaken name)
  let (entry, attached) ← (compileRoute route).adaptExcept (.template route.template.source)
  if let some name := route.name? then
    modify fun r => { r with names := r.names.insert name r.size }
  modify fun r => { r with entries := r.entries ++ [entry] }
  return attached

def tryInsert (methods : List Method) (path : String) (action : α) :
    EStateM RouterError (Router α) Nat :=
  register (.new methods (.ofPath path) action)

/-- Registers a path for methods, and panics when it is refused. The error is the text of the panic. -/
def insert (methods : List Method) (path : String) (action : α) : EStateM String (Router α) Nat :=
  (tryInsert methods path action).adaptExcept fun e =>
    e.message ++ ": pattern = " ++ quoted path

/-- Registers routes until one is refused. Gives the router with those before it, the numbers of
their alternatives, and the error. -/
def registerAll (r : Router α) : List (Route α) → Router α × List Nat × Option RouterError
  | [] => (r, [], none)
  | route :: rest =>
    match register route r with
    | .error e r => (r, [], some e)
    | .ok attached r =>
      let (r, more, error?) := r.registerAll rest
      (r, attached :: more, error?)

end Router

end UriRouting

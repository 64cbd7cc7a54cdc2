import UriRouting.Http.Method
import UriRouting.Route.UriTemplate
import UriRouting.Rule.Basic
/-!
Routes: what they match, and what they carry for those who handle the request.
-/

namespace UriRouting

abbrev Captures := List (String × String)

/-! ## Constraints -/

structure RequestContext where
  method : Method
  host : String
  path : String
  headers : Headers
  captures : Captures

/-- A condition on requests that the template cannot express. -/
structure RouteConstraint where
  label : String
  passes : RequestContext → Bool

/-! ## Middleware -/

/-- A step of request handling by name, with its parameters. -/
structure Middleware where
  name : String
  parameters : StringTable String
  deriving Repr

/-! ## Routes -/

/-- A route with what it stands for, its action. -/
structure Route (α : Type) where
  /-- The methods the route takes, each once; none means all. -/
  methods : List Method
  template : UriTemplate
  action : α
  middleware : List Middleware := []
  variableRules : List (String × RuleSpec) := []
  constraints : List RouteConstraint := []
  name? : Option String := none
  attributes : StringTable String := .empty

namespace Route

variable {α : Type}

def new (methods : List Method) (template : UriTemplate) (action : α) : Route α :=
  { methods := Method.union [] methods, template, action }

def allows (r : Route α) (m : Method) : Bool := r.methods.isEmpty || r.methods.contains m

def rulesFor (r : Route α) (variableName : String) : List RuleSpec :=
  r.variableRules.filterMap fun (name, spec) => if name = variableName then some spec else none

def addRule (r : Route α) (variableName : String) (spec : RuleSpec) : Route α :=
  { r with variableRules := r.variableRules ++ [(variableName, spec)] }

end Route

end UriRouting

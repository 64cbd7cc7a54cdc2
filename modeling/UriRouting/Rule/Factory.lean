import UriRouting.Rule.Basic
import UriRouting.StringTable
/-!
Rules by name.
-/

namespace UriRouting

open Text

inductive RuleError
  | unknown (name : String)
  | invalidParams (rule : String) (fault : ParamFault)
  deriving DecidableEq, Repr

def RuleError.message : RuleError → String
  | unknown name => "unknown rule " ++ quoted name
  | invalidParams rule fault => "invalid parameters for rule " ++ quoted rule ++ ": " ++ fault.message

/-- Constructors by the name of their rule. -/
structure RuleFactory where
  constructors : StringTable RuleConstructor

namespace RuleFactory

def empty : RuleFactory := ⟨.empty⟩

def register (f : RuleFactory) (name : String) (make : RuleConstructor) : RuleFactory :=
  ⟨f.constructors.insert name make⟩

def default : RuleFactory :=
  let rules : List (String × RuleConstructor) := [
    ("int", Rule.withoutParams "int" .integer),
    ("numeric", Rule.withoutParams "numeric" .numeric),
    ("alpha", Rule.withoutParams "alpha" .alpha),
    ("alphanumeric", Rule.withoutParams "alphanumeric" .alphanumeric),
    ("between", Rule.ofRange),
    ("in", fun params => .ok (.oneOf (params.map Param.text))),
    ("notIn", fun params => .ok (.noneOf (params.map Param.text))),
    ("regex", Rule.ofPattern),
    ("uuidv4", Rule.withoutParams "uuidv4" .uuidV4),
    ("date", Rule.ofFormats)]
  rules.foldl (fun f r => f.register r.1 r.2) empty

def hasRule (f : RuleFactory) (name : String) : Bool := f.constructors.contains name

def create (f : RuleFactory) (name : String) (params : List Param) : Except RuleError Rule :=
  match f.constructors.find? name with
  | none => .error (.unknown name)
  | some make => (make params).mapError (.invalidParams name)

def describe (f : RuleFactory) : String :=
  "RuleFactory \x7b rules: [" ++ ", ".intercalate (f.constructors.keys.map quoted) ++ "] \x7d"

end RuleFactory

end UriRouting

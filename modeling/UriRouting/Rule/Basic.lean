import UriRouting.Calendar.Reading
import UriRouting.Pattern.Parser
import UriRouting.Pattern.Search
import UriRouting.Rule.Param
import UriRouting.Text.Split
/-!
Rules: conditions on the text that a variable takes from a request.

A rule is made from parameters by a constructor, which says what is wrong with parameters that it
does not take.
-/

namespace UriRouting

open Numeric Text

/-! ## Specifications -/

structure RuleSpec where
  name : String
  params : List Param
  deriving DecidableEq, Repr

def pairwiseSame {α : Type} (same : α → α → Bool) : List α → List α → Bool
  | [], [] => true
  | a :: as, b :: bs => same a b && pairwiseSame same as bs
  | _, _ => false

def RuleSpec.same (a b : RuleSpec) : Bool := a.name = b.name && pairwiseSame Param.same a.params b.params

/-! ## Rules -/

inductive Rule
  | integer
  | numeric
  | alpha
  | alphanumeric
  | between (low high : Binary64) (inclusive : Bool)
  | oneOf (values : List String)
  | noneOf (values : List String)
  | pattern (p : Pattern)
  | uuidV4
  | date (formats : List String)
  | custom (accepts : String → Bool)

def isHexDigit (c : Char) : Bool :=
  isDigit c || ('a' ≤ c && c ≤ 'f') || ('A' ≤ c && c ≤ 'F')

/-- Whether groups of hexadecimal digits are those of a random identifier: of lengths 8, 4, 4, 4 and
12, the third one of version four and the fourth one of its variant. -/
def isUuidV4Groups (groups : List (List Char)) : Bool :=
  groups.map List.length = [8, 4, 4, 4, 12]
    && groups.all (·.all isHexDigit)
    && (groups[2]?.bind List.head?) = some '4'
    && (groups[3]?.bind List.head?).any "89abAB".toList.contains

/-- Whether a text is a random identifier. A brace may stand at either end. -/
def isUuidV4 (text : String) : Bool :=
  let cs := match text.toList with
    | '\x7b' :: rest => rest
    | cs => cs
  let cs := if cs.getLast? = some '\x7d' then cs.dropLast else cs
  isUuidV4Groups (splitAt '-' cs)

namespace Rule

def accepts : Rule → String → Bool
  | integer, text => (IntegerRange.signed64.read? text).isSome
  | numeric, text => (Binary64.read? text).any Binary64.isFinite
  | alpha, text => text ≠ "" && text.toList.all Char.isAlpha
  | alphanumeric, text => text ≠ "" && text.toList.all Char.isAlphanum
  | between low high inclusive, text =>
    match Binary64.read? text with
    | none => false
    | some n => if inclusive then low.le n && n.le high else low.lt n && n.lt high
  | oneOf values, text => values.contains text
  | noneOf values, text => !values.contains text
  | pattern p, text => p.foundIn text
  | uuidV4, text => isUuidV4 text
  | date formats, text => formats.any fun format => Calendar.isDate format text
  | custom accepts, text => accepts text

end Rule

/-! ## Constructors -/

inductive ParamFault
  | takesNone (rule : String)
  | boundNotNumber (bound : Param)
  | inclusivityNotBoolean (param : Param)
  | notARange
  | notAPattern
  | badPattern (fault : PatternFault)
  | noFormat
  | stated (message : String)
  deriving DecidableEq, Repr

def ParamFault.message : ParamFault → String
  | takesNone rule => rule ++ " takes no parameters"
  | boundNotNumber p => "between bound " ++ p.describe ++ " is not a number"
  | inclusivityNotBoolean p => "between inclusivity " ++ p.describe ++ " is not a boolean"
  | notARange => "between takes a min, a max and an optional inclusivity flag"
  | notAPattern => "regex takes a single pattern string"
  | badPattern fault => fault.message
  | noFormat => "date takes at least one format"
  | stated message => message

abbrev RuleConstructor := List Param → Except ParamFault Rule

namespace Rule

def withoutParams (name : String) (rule : Rule) : RuleConstructor
  | [] => .ok rule
  | _ => .error (.takesNone name)

def boundOf (p : Param) : Except ParamFault Binary64 :=
  match p.toBinary64? with
  | some x => .ok x
  | none => .error (.boundNotNumber p)

/-- A parameter as a flag: an integer that is not zero, or one of two words. -/
def flagOf : Param → Except ParamFault Bool
  | .int i => .ok (i ≠ 0)
  | .str "true" => .ok true
  | .str "false" => .ok false
  | p => .error (.inclusivityNotBoolean p)

/-- A range from its bounds, which belong to it unless a flag says otherwise. -/
def ofRange : RuleConstructor
  | [low, high] => return .between (← boundOf low) (← boundOf high) true
  | [low, high, flag] => do
    let inclusive ← flagOf flag
    return .between (← boundOf low) (← boundOf high) inclusive
  | _ => .error .notARange

def ofPattern : RuleConstructor
  | [.str text] =>
    match Pattern.ofString text with
    | .ok p => .ok (.pattern p)
    | .error fault => .error (.badPattern fault)
  | _ => .error .notAPattern

def ofFormats : RuleConstructor
  | [] => .error .noFormat
  | formats => .ok (.date (formats.map Param.text))

end Rule

end UriRouting

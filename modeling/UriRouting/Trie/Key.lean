import UriRouting.Pattern.Layout
import UriRouting.Route.Basic
/-!
Keys of the trie: what a segment of a path or a label of a host has to be.

A key is a literal text or a row of variables and texts. A row that is more than one variable takes
a segment by cutting it into pieces: texts as they are, and values that are neither empty nor hold a
line break. Of all ways to cut, the one that makes the first value shortest counts, then the second,
and so on.
-/

namespace UriRouting

/-! ## Variables -/

structure Variable where
  name : String
  checks : List (RuleSpec × Rule)

structure Evaluation where
  rule : String
  value : String
  passed : Bool
  deriving DecidableEq, Repr

namespace Variable

def same (a b : Variable) : Bool :=
  a.name = b.name && pairwiseSame RuleSpec.same (a.checks.map (·.1)) (b.checks.map (·.1))

/-- Whether a variable takes a value. No variable takes the empty text. -/
def accepts (v : Variable) (value : String) : Bool :=
  value ≠ "" && v.checks.all fun check => check.2.accepts value

/-- The rules asked about a value, up to the first that rejects it. -/
def evaluateChecks (value : String) : List (RuleSpec × Rule) → List Evaluation
  | [] => []
  | (spec, rule) :: rest =>
    if rule.accepts value then ⟨spec.name, value, true⟩ :: evaluateChecks value rest
    else [⟨spec.name, value, false⟩]

def evaluate (v : Variable) (value : String) : List Evaluation :=
  if value = "" then [] else evaluateChecks value v.checks

end Variable

/-! ## Segment patterns -/

inductive SegmentPart
  | literal (text : String)
  | var (v : Variable)

/-- Variables of a segment, with the texts between and around them. -/
structure SegmentPattern where
  parts : List SegmentPart

namespace SegmentPart

def same : SegmentPart → SegmentPart → Bool
  | literal a, literal b => a = b
  | var a, var b => a.same b
  | _, _ => false

def var? : SegmentPart → Option Variable
  | var v => some v
  | literal _ => none

def describe : SegmentPart → String
  | literal text => text
  | var v => ":" ++ v.name

/-- How a part cuts segments: a text as it is, a value wherever there is no line break. -/
def plan : SegmentPart → Plan
  | literal text => .ofText text.toList
  | var _ => .captured (.repeated (.chars (.complement (.single '\n'))) 1 none)

end SegmentPart

/-! ## Cutting -/

abbrev Values := List (List Char)

/-- The cuts for a text and then a rest, at each place of the segment `cs`, given those for the rest
at each place. -/
def cutLiteral (text : List Char) : List Char → List (Option Values) → List (Option Values)
  | [], rest => [if text.isPrefixOf [] then (rest.drop text.length).head?.join else none]
  | c :: cs, rest =>
    (if text.isPrefixOf (c :: cs) then (rest.drop text.length).head?.join else none)
      :: cutLiteral text cs rest.tail

/-- The cuts for a variable and then a rest. The value ends as soon as the rest fits. -/
def cutValue : List Char → List (Option Values) → List (Option Values)
  | [], _ => [none]
  | c :: cs, rest =>
    let later := cutValue cs rest.tail
    let here :=
      if c = '\n' then none
      else match rest.tail.head?.join, later.head?.join with
        | some values, _ => some ([c] :: values)
        | none, some (value :: values) => some ((c :: value) :: values)
        | none, _ => none
    here :: later

/-- The cuts for a row of parts, at each place of a segment. -/
def cuts (segment : List Char) : List SegmentPart → List (Option Values)
  | [] => List.replicate segment.length none ++ [some []]
  | .literal text :: parts => cutLiteral text.toList segment (cuts segment parts)
  | .var _ :: parts => cutValue segment (cuts segment parts)

namespace SegmentPattern

def same (a b : SegmentPattern) : Bool := pairwiseSame SegmentPart.same a.parts b.parts

def vars (p : SegmentPattern) : List Variable := p.parts.filterMap SegmentPart.var?

def describe (p : SegmentPattern) : String := String.join (p.parts.map SegmentPart.describe)

def plan (p : SegmentPattern) : Plan :=
  (p.parts.map SegmentPart.plan).foldr .append (.assertion .textEnd)
    |> (Plan.assertion .textStart).append

/-- Whether a pattern is not too large. A lone variable needs no cutting. -/
def fits (p : SegmentPattern) : Bool :=
  match p.parts with
  | [.var _] => true
  | _ => p.plan.fits

/-- The values that the variables get from a segment, before their rules are asked. -/
def values? (p : SegmentPattern) (segment : String) : Option (List (Variable × String)) :=
  match p.parts with
  | [.var v] => some [(v, segment)]
  | parts => (cuts segment.toList parts).head?.join.map fun values =>
    p.vars.zip (values.map String.ofList)

def capture? (p : SegmentPattern) (segment : String) : Option Captures :=
  (p.values? segment).bind fun values =>
    if values.all fun (v, value) => v.accepts value then
      some (values.map fun (v, value) => (v.name, value))
    else none

/-- Pushes values that their variables take onto what has been captured. At the first value that is
refused, everything from the place `mark` on is dropped again. -/
def pushValues (mark : Nat) : List (Variable × String) → Captures → Bool × Captures
  | [], captures => (true, captures)
  | (v, value) :: rest, captures =>
    if v.accepts value then pushValues mark rest (captures ++ [(v.name, value)])
    else (false, captures.take mark)

/-- Pushes what the pattern captures from a segment, and tells whether it takes the segment. -/
def capture (p : SegmentPattern) (segment : String) (captures : Captures) : Bool × Captures :=
  match p.values? segment with
  | some values => pushValues captures.length values captures
  | none => (false, captures)

/-- The rules asked about values in order, up to the first that rejects one. -/
def evaluateAll : List (Variable × String) → List Evaluation
  | [] => []
  | (v, value) :: rest => v.evaluate value ++ if v.accepts value then evaluateAll rest else []

def evaluate (p : SegmentPattern) (segment : String) : List Evaluation :=
  match p.values? segment with
  | some values => evaluateAll values
  | none => []

end SegmentPattern

/-! ## Keys -/

/-- What a segment or label has to be. -/
inductive Key
  | literal (text : String)
  | pattern (p : SegmentPattern)

def Key.same : Key → Key → Bool
  | .literal a, .literal b => a = b
  | .pattern a, .pattern b => a.same b
  | _, _ => false

end UriRouting

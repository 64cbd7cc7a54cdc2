import UriRouting.Config
import UriRouting.Rule.Factory
import UriRouting.Template.Parser
import UriRouting.Text.LetterCase
import UriRouting.Trie.Key
/-!
From a template to the rows of keys that it stands for.

Each way to keep or drop the optional parts makes a form. A form is cut at its delimiters into
segments, and each segment that is not empty becomes a key. Texts of a host are in lower case.
-/

namespace UriRouting

open Text

/-! ## Errors -/

inductive CompileError
  | template (error : TemplateError)
  | rule (error : RuleError)
  | tooManyAlternatives (limit : Nat)
  | tooManySegments (limit : Nat)
  | patternTooLarge (pattern : String)
  deriving DecidableEq, Repr

def CompileError.message : CompileError → String
  | template e => e.message
  | rule e => e.message
  | tooManyAlternatives limit =>
    "template expands to more than " ++ toString limit ++ " alternatives"
  | tooManySegments limit => "template has more than " ++ toString limit ++ " segments"
  | patternTooLarge pattern =>
    "segment pattern " ++ quoted pattern ++ " does not compile: it is too large"

/-! ## Rules of variables -/

structure Compiler where
  factory : RuleFactory
  config : Config
  rulesFor : String → List RuleSpec

namespace Compiler

def specOf (r : RuleCall) : RuleSpec := ⟨r.rule, r.params?.getD []⟩

def checkOf (c : Compiler) (spec : RuleSpec) : Except CompileError (RuleSpec × Rule) :=
  match c.factory.create spec.name spec.params with
  | .ok rule => .ok (spec, rule)
  | .error e => .error (.rule e)

/-- The variable of a slot: first the rules in the template, then the route's own. -/
def variableOf (c : Compiler) (slot : Slot) : Except CompileError Variable :=
  ((slot.rules.map specOf ++ c.rulesFor slot.name).mapM c.checkOf).map (⟨slot.name, ·⟩)

end Compiler

/-! ## Forms -/

/-- A form in the making: its segments so far, and whether the next part begins another one. -/
structure Form where
  segments : List (List SegmentPart)
  isOpen : Bool

namespace Form

def start : Form := ⟨[], true⟩

def cut (f : Form) : Form := { f with isOpen := true }

def push (p : SegmentPart) (f : Form) : Form :=
  if f.isOpen || f.segments.isEmpty then ⟨f.segments ++ [[p]], false⟩
  else ⟨f.segments.dropLast ++ [f.segments.getLastD [] ++ [p]], false⟩

end Form

namespace Compiler

mutual

/-- The forms behind a part that follows `forms`. Behind an optional part there are those without it
and then those with it. -/
def expandPart (c : Compiler) (forms : List Form) : Part Slot → Except CompileError (List Form)
  | .delimiter => .ok (forms.map .cut)
  | .text s => .ok (forms.map (.push (.literal s)))
  | .var slot =>
    match c.variableOf slot with
    | .ok v => .ok (forms.map (.push (.var v)))
    | .error e => .error e
  | .optional parts =>
    match c.expandRow forms parts with
    | .ok longer =>
      if c.config.maxTemplateAlternatives < (forms ++ longer).length then
        .error (.tooManyAlternatives c.config.maxTemplateAlternatives)
      else .ok (forms ++ longer)
    | .error e => .error e

/-- The forms behind a row of parts that follows `forms`. -/
def expandRow (c : Compiler) (forms : List Form) : List (Part Slot) → Except CompileError (List Form)
  | [] => .ok forms
  | p :: rest =>
    match c.expandPart forms p with
    | .ok forms => c.expandRow forms rest
    | .error e => .error e

end

end Compiler

/-! ## Keys -/

def joinTexts : List SegmentPart → List SegmentPart
  | [] => []
  | .var v :: rest => .var v :: joinTexts rest
  | .literal a :: rest =>
    match joinTexts rest with
    | .literal b :: rest => .literal (a ++ b) :: rest
    | rest => .literal a :: rest

/-- A part as it stands in a key: texts of a host are in lower case. -/
def SegmentPart.onSide (side : Side) : SegmentPart → SegmentPart
  | .literal text =>
    match side with
    | .host => .literal (lowercase text)
    | .path => .literal text
  | .var v => .var v

def SegmentPart.isPresent : SegmentPart → Bool
  | .literal text => text ≠ ""
  | .var _ => true

def keyOf (side : Side) (segment : List SegmentPart) : Except CompileError Key :=
  match ((joinTexts segment).filter SegmentPart.isPresent).map (SegmentPart.onSide side) with
  | [] => .ok (.literal "")
  | [.literal text] => .ok (.literal text)
  | parts =>
    let p : SegmentPattern := ⟨parts⟩
    if p.fits then .ok (.pattern p) else .error (.patternTooLarge p.describe)

/-! ## Templates -/

/-- The rows of keys that a template stands for. Those of a host begin with its last label. -/
structure CompiledTemplate where
  paths : List (List Key)
  hosts? : Option (List (List Key))

namespace Compiler

def keysOfForm (c : Compiler) (side : Side) (form : Form) : Except CompileError (List Key) :=
  if c.config.maxSegments < form.segments.length then
    .error (.tooManySegments c.config.maxSegments)
  else form.segments.mapM (keyOf side)

def expand (c : Compiler) (side : Side) (parts : List (Part Slot)) :
    Except CompileError (List (List Key)) :=
  match c.expandRow [.start] parts with
  | .ok forms => forms.mapM (c.keysOfForm side)
  | .error e => .error e

def compile (c : Compiler) (t : Template) : Except CompileError CompiledTemplate := do
  let paths ← c.expand .path t.path
  match t.host? with
  | none => return ⟨paths, none⟩
  | some host => return ⟨paths, some ((← c.expand .host host).map List.reverse)⟩

end Compiler

end UriRouting

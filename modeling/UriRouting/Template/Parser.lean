import UriRouting.Template.Lexer
import UriRouting.Template.Part
import UriRouting.Template.TokenStream
import UriRouting.Text.Split
/-!
Reading the tokens of a template into its parts.

Tokens before the first slash are the host when one of them is more than a bracket; a template with
a host and no slash has an empty path. In a path an optional part starts with its slash, and periods,
parentheses and stray closing brackets are text. In a host an optional part ends with its period.
The parentheses after a variable hold its rules.

The reader takes one token at a time. `Builder` holds the open rows of parts and what the next token
has to be.
-/

namespace UriRouting

open Text

/-! ## State -/

/-- What the next token belongs to. Rules and parameters are kept newest first. -/
inductive Awaiting
  | part
  /-- The slash of an optional path part. -/
  | optionalSlash
  /-- The rules of a variable, or a part. -/
  | rules (name : String)
  | rule (name : String) (rules : List RuleCall)
  /-- The parameters of the rule `call`, another rule or the end of the rules. -/
  | params (name : String) (rules : List RuleCall) (call : String)
  | firstParam (name : String) (rules : List RuleCall) (call : String)
  | nextParam (name : String) (rules : List RuleCall) (call : String) (params : List Param)
  | afterParam (name : String) (rules : List RuleCall) (call : String) (params : List Param)
  | afterRule (name : String) (rules : List RuleCall)

/-- What has been read of a host or path. -/
structure Builder where
  /-- The innermost open row, newest part first. -/
  row : List (Part Slot) := []
  /-- The rows around it, innermost first. -/
  outer : List (List (Part Slot)) := []
  awaiting : Awaiting := .part

namespace Builder

def push (b : Builder) (p : Part Slot) : Builder := { b with row := p :: b.row, awaiting := .part }

def openOptional (b : Builder) : Builder := ⟨[], b.row :: b.outer, .part⟩

/-- Adds a variable with its rules, which are given newest first. -/
def pushSlot (b : Builder) (name : String) (rules : List RuleCall) : Builder :=
  b.push (.var ⟨name, rules.reverse⟩)

/-! ## Parts -/

def readPathMark (b : Builder) (t : Token) : Builder :=
  if t.value = "/" then b.push .delimiter
  else if t.value = "[" then { b with awaiting := .optionalSlash }
  else if t.value = "]" then
    match b.outer with
    | [] => b.push (.text t.value)
    | row :: outer => ⟨.optional b.row.reverse :: row, outer, .part⟩
  else b.push (.text t.value)

def readHostMark (b : Builder) (t : Token) : Except UnexpectedToken Builder :=
  if t.value = "." then .ok (b.push .delimiter)
  else if t.value = "[" then .ok b.openOptional
  else if t.value = "]" then
    match b.outer with
    | [] => .error ⟨.noStrayHostBracket, t⟩
    | row :: outer =>
      if b.row.head?.any Part.isDelimiter then .ok ⟨.optional b.row.reverse :: row, outer, .part⟩
      else .error ⟨.optionalHostDelimiter, t⟩
  else .ok (b.push (.text t.value))

/-- The parts of a number in a host, where its periods separate labels. -/
def labelParts (value : String) : List (Part Slot) :=
  ((splitAt '.' value.toList).map fun label => .text (String.ofList label)).intersperse .delimiter

def readPart (side : Side) (b : Builder) (t : Token) : Except UnexpectedToken Builder :=
  match t.kind, side with
  | .var, _ =>
    if b.row.head?.any Part.isVar then .error ⟨.delimiterBetweenVariables, t⟩
    else .ok { b with awaiting := .rules t.value }
  | .punctuation, .path => .ok (b.readPathMark t)
  | .punctuation, .host => b.readHostMark t
  | .number, .host => .ok { b with row := (labelParts t.value).reverse ++ b.row, awaiting := .part }
  | _, _ => .ok (b.push (.text t.value))

/-! ## Rules -/

def paramOf? (t : Token) : Option Param :=
  match t.kind with
  | .number => t.number?
  | .quotedString | .text => some (.str t.value)
  | _ => none

def readParam (b : Builder) (name : String) (rules : List RuleCall) (call : String)
    (params : List Param) (t : Token) : Except UnexpectedToken Builder :=
  match paramOf? t with
  | some p => .ok { b with awaiting := .afterParam name rules call (p :: params) }
  | none => .error ⟨.parameter, t⟩

def readAfterRule (b : Builder) (name : String) (rules : List RuleCall) (t : Token) :
    Except UnexpectedToken Builder :=
  if t.isPunctuation "," then .ok { b with awaiting := .rule name rules }
  else if t.isPunctuation ")" then .ok (b.pushSlot name rules)
  else .error ⟨.rulesEnd, t⟩

def read (side : Side) (b : Builder) (t : Token) : Except UnexpectedToken Builder :=
  match b.awaiting with
  | .part => b.readPart side t
  | .optionalSlash =>
    if t.isPunctuation "/" then .ok (b.openOptional.push .delimiter)
    else .error ⟨.optionalPathStart, t⟩
  | .rules name =>
    if t.isPunctuation "(" then .ok { b with awaiting := .rule name [] }
    else (b.pushSlot name []).readPart side t
  | .rule name rules =>
    if t.kind = .text then .ok { b with awaiting := .params name rules t.value }
    else .error ⟨.ruleName, t⟩
  | .params name rules call =>
    if t.isPunctuation "(" then .ok { b with awaiting := .firstParam name rules call }
    else b.readAfterRule name (⟨call, none⟩ :: rules) t
  | .firstParam name rules call =>
    if t.isPunctuation ")" then .ok { b with awaiting := .afterRule name (⟨call, some []⟩ :: rules) }
    else b.readParam name rules call [] t
  | .nextParam name rules call params => b.readParam name rules call params t
  | .afterParam name rules call params =>
    if t.isPunctuation "," then .ok { b with awaiting := .nextParam name rules call params }
    else if t.isPunctuation ")" then
      .ok { b with awaiting := .afterRule name (⟨call, some params.reverse⟩ :: rules) }
    else .error ⟨.parametersEnd, t⟩
  | .afterRule name rules => b.readAfterRule name rules t

/-! ## The end -/

def openAtEnd : Side → Expectation
  | .host => .optionalHostEnd
  | .path => .optionalPathEnd

def close (side : Side) (b : Builder) (stop : Token) : Except UnexpectedToken (List (Part Slot)) :=
  match b.outer with
  | [] => .ok b.row.reverse
  | _ => .error ⟨openAtEnd side, stop⟩

def finish (side : Side) (b : Builder) (stop : Token) : Except UnexpectedToken (List (Part Slot)) :=
  match b.awaiting with
  | .part => b.close side stop
  | .optionalSlash => .error ⟨.optionalPathStart, stop⟩
  | .rules name => (b.pushSlot name []).close side stop
  | .rule .. => .error ⟨.ruleName, stop⟩
  | .params .. | .afterRule .. => .error ⟨.rulesEnd, stop⟩
  | .firstParam .. | .nextParam .. => .error ⟨.parameter, stop⟩
  | .afterParam .. => .error ⟨.parametersEnd, stop⟩

end Builder

/-! ## The parser -/

def parseSide (side : Side) (tokens : List Token) (stop : Token) :
    Except UnexpectedToken (List (Part Slot)) := do
  let b ← tokens.foldlM (Builder.read side) {}
  b.finish side stop

def Token.isBracket (t : Token) : Bool := t.isPunctuation "[" || t.isPunctuation "]"

def splitSides (tokens : List Token) : Option (List Token) × List Token :=
  let front := tokens.takeWhile (!·.isPunctuation "/")
  if front.all Token.isBracket then (none, tokens)
  else (some front, tokens.dropWhile (!·.isPunctuation "/"))

/-- Reads tokens up to their first end token. Where a host and a path share the tokens, the path
ends with the end token found and the host with one of its own. -/
def parse (tokens : List Token) : Except UnexpectedToken Template := do
  let body := tokens.takeWhile (·.kind ≠ .eof)
  let stop := (tokens.find? (·.kind = .eof)).getD .eof
  match splitSides body with
  | (none, path) => return ⟨none, ← parseSide .path path stop⟩
  | (some host, []) =>
    let host ← parseSide .host host stop
    return ⟨some host, ← parseSide .path [] .eof⟩
  | (some host, path) =>
    let host ← parseSide .host host .eof
    return ⟨some host, ← parseSide .path path stop⟩

/-! ## Templates from text -/

inductive TemplateError
  | lexing (error : LexError)
  | unexpected (error : UnexpectedToken)
  deriving DecidableEq, Repr

def TemplateError.message : TemplateError → String
  | lexing e => e.message
  | unexpected e => e.message

def Template.ofString (text : String) : Except TemplateError Template :=
  match lex text with
  | .error e => .error (.lexing e)
  | .ok tokens => (parse (TokenStream.closed tokens)).mapError .unexpected

end UriRouting

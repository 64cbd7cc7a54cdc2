import UriRouting.Router.Basic
/-!
Writing the URI of a named route.

Required variables have to be bound. Optional parts are written from left to right as long as their
variables are bound; from the first one that lacks a variable on, all are left out. Values in a path
are percent-encoded, and a route with a host gets an absolute URI.
-/

namespace UriRouting

/-! ## Percent-encoding -/

def isUnreserved (c : Char) : Bool := c.isAlphanum || c = '-' || c = '_' || c = '.' || c = '~'

def hexDigit (n : Nat) : Char := (Nat.digitChar n).toUpper

def percentByte (b : UInt8) : List Char := ['%', hexDigit (b.toNat / 16), hexDigit (b.toNat % 16)]

def percentEncode (s : String) : String :=
  String.ofList (s.toList.flatMap fun c =>
    if isUnreserved c then [c] else (String.utf8EncodeChar c).flatMap percentByte)

/-! ## Rendering -/

structure Renderer where
  side : Side
  lookup : String → Option String
  encode : String → String

/-- A missing variable, or the text and whether an optional part has been left out. -/
abbrev Rendered := Except String (String × Bool)

namespace Renderer

def canRender (w : Renderer) (parts : List (Part Slot)) : Bool :=
  parts.all fun
    | .var slot => (w.lookup slot.name).isSome
    | _ => true

mutual

def renderPart (w : Renderer) (omitted : Bool) : Part Slot → Rendered
  | .delimiter => .ok (String.singleton w.side.delimiter, omitted)
  | .text s => .ok (s, omitted)
  | .var slot =>
    match w.lookup slot.name with
    | some value => .ok (w.encode value, omitted)
    | none => .error slot.name
  | .optional parts =>
    if omitted || !w.canRender parts then .ok ("", true) else w.render omitted parts

def render (w : Renderer) (omitted : Bool) : List (Part Slot) → Rendered
  | [] => .ok ("", omitted)
  | p :: rest =>
    match w.renderPart omitted p with
    | .error e => .error e
    | .ok (text, omitted) =>
      match w.render omitted rest with
      | .error e => .error e
      | .ok (more, omitted) => .ok (text ++ more, omitted)

end

def text (w : Renderer) (parts : List (Part Slot)) : Except String String :=
  (w.render false parts).map (·.1)

end Renderer

/-- The URI that a template makes of bindings, the first of a name counting. -/
def Template.uri (t : Template) (httpsOnly : Bool) (bindings : List (String × String)) :
    Except String String := do
  let value? (name : String) : Option String := bindings.lookup name
  let path ← Renderer.text ⟨.path, value?, percentEncode⟩ t.path
  let path := if path = "" then "/" else path
  match t.host? with
  | none => return path
  | some host =>
    let host ← Renderer.text ⟨.host, value?, id⟩ host
    return (if httpsOnly then "https" else "http") ++ "://" ++ host ++ path

/-- The URI of a named route. Its template is read once more. -/
def Router.uriFor {α : Type} (r : Router α) (name : String) (bindings : List (String × String)) :
    Except RouterError String :=
  match r.named? name with
  | none => .error (.unknownRoute name)
  | some e =>
    let source := e.route.template.source
    match Template.ofString source with
    | .error fault => .error (.template source (.template fault))
    | .ok t => (t.uri e.route.template.httpsOnly bindings).mapError (.missingVariable name)

end UriRouting

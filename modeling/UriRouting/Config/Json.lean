import UriRouting.Config
import UriRouting.Numeric.Integer
/-!
Reading a configuration from a JSON text.

A configuration is an object whose known names each occur at most once, other names being passed
over, or an array of the limits in order. What is missing keeps its default. A limit is written as a
plain natural number of at most 64 bits.
-/

namespace UriRouting

open Numeric

/-! ## JSON values -/

inductive JsonValue
  | name
  | number (text : List Char)
  /-- A text, absent when its escapes are not those of a text. -/
  | text (value? : Option (List Char))
  | array (items : List JsonValue)
  | object (fields : List (Option (List Char) × JsonValue))

namespace JsonValue

def isSpace (c : Char) : Bool := c = ' ' || c = '\n' || c = '\t' || c = '\r'

def skipSpace (cs : List Char) : List Char := cs.dropWhile isSpace

def expect? (word cs : List Char) : Option (List Char) :=
  if word.isPrefixOf cs then some (cs.drop word.length) else none

/-! ### Numbers -/

def readDigits? (cs : List Char) : Option (List Char × List Char) :=
  let ds := cs.takeWhile isDigit
  if ds = [] then none else some (ds, cs.drop ds.length)

/-- The whole part of a number: a zero, or digits that do not begin with one. -/
def readWhole? : List Char → Option (List Char × List Char)
  | '0' :: rest => if rest.head?.any isDigit then none else some (['0'], rest)
  | cs => readDigits? cs

def readFraction? : List Char → Option (List Char × List Char)
  | '.' :: cs => (readDigits? cs).map fun (ds, rest) => ('.' :: ds, rest)
  | cs => some ([], cs)

def readExponent? : List Char → Option (List Char × List Char)
  | [] => some ([], [])
  | c :: cs =>
    if c = 'e' || c = 'E' then
      match cs with
      | '+' :: cs | '-' :: cs => (readDigits? cs).map fun (ds, rest) => ('e' :: '±' :: ds, rest)
      | cs => (readDigits? cs).map fun (ds, rest) => ('e' :: ds, rest)
    else some ([], c :: cs)

def readNumber? (cs : List Char) : Option (JsonValue × List Char) := do
  let (sign, cs) := match cs with
    | '-' :: cs => (['-'], cs)
    | cs => ([], cs)
  let (whole, cs) ← readWhole? cs
  let (fraction, cs) ← readFraction? cs
  let (exponent, cs) ← readExponent? cs
  return (number (sign ++ whole ++ fraction ++ exponent), cs)

/-! ### Texts -/

def readUnit? : List Char → Option (Nat × List Char)
  | a :: b :: c :: d :: rest => do
    let digit (x : Char) : Option Nat :=
      if isDigit x then some (digitValue x)
      else if 'a' ≤ x && x ≤ 'f' then some (x.toNat - 'a'.toNat + 10)
      else if 'A' ≤ x && x ≤ 'F' then some (x.toNat - 'A'.toNat + 10)
      else none
    return (0x1000 * (← digit a) + 0x100 * (← digit b) + 16 * (← digit c) + (← digit d), rest)
  | _ => none

def shortEscape? : Char → Option Char
  | '"' => some '"'
  | '\\' => some '\\'
  | '/' => some '/'
  | 'b' => some '\x08'
  | 'f' => some '\x0c'
  | 'n' => some '\n'
  | 'r' => some '\r'
  | 't' => some '\t'
  | _ => none

/-- What a text is made of: characters, and halves of characters written by escapes. -/
inductive TextUnit
  | char (c : Char)
  | half (n : Nat)

/-- Reads a text up to its closing quote, with fuel for each character. -/
def readUnits? : Nat → List Char → Option (List TextUnit × List Char)
  | 0, _ => none
  | fuel + 1, cs =>
    let add (u : TextUnit) (rest : List Char) : Option (List TextUnit × List Char) :=
      (readUnits? fuel rest).map fun (us, rest) => (u :: us, rest)
    match cs with
    | [] => none
    | '"' :: rest => some ([], rest)
    | '\\' :: 'u' :: rest =>
      (readUnit? rest).bind fun (n, rest) =>
        add (if n.isValidChar then .char (Char.ofNat n) else .half n) rest
    | '\\' :: c :: rest => (shortEscape? c).bind fun c => add (.char c) rest
    | c :: rest => if c.toNat < 0x20 || c = '\\' then none else add (.char c) rest

/-- The text of its units. Halves of characters have to come in pairs. -/
def joinUnits? : List TextUnit → Option (List Char)
  | [] => some []
  | .char c :: us => (joinUnits? us).map (c :: ·)
  | .half a :: .half b :: us =>
    if a < 0xDC00 && 0xDC00 ≤ b then
      (joinUnits? us).map (Char.ofNat (0x10000 + (a - 0xD800) * 0x400 + (b - 0xDC00)) :: ·)
    else none
  | .half _ :: _ => none

def readText? (cs : List Char) : Option (Option (List Char) × List Char) :=
  (readUnits? (cs.length + 1) cs).map fun (us, rest) => (joinUnits? us, rest)

/-! ### Values -/

inductive Position
  | first
  | next

mutual

/-- Reads a value, with fuel for each token. -/
def read? : Nat → List Char → Option (JsonValue × List Char)
  | 0, _ => none
  | fuel + 1, cs =>
    match skipSpace cs with
    | '[' :: rest => (readItems? fuel .first rest).map fun (items, rest) => (array items, rest)
    | '\x7b' :: rest => (readFields? fuel .first rest).map fun (fs, rest) => (object fs, rest)
    | '"' :: rest => (readText? rest).map fun (t, rest) => (text t, rest)
    | 't' :: rest => (expect? ['r', 'u', 'e'] rest).map (name, ·)
    | 'f' :: rest => (expect? ['a', 'l', 's', 'e'] rest).map (name, ·)
    | 'n' :: rest => (expect? ['u', 'l', 'l'] rest).map (name, ·)
    | cs => readNumber? cs

def readItems? : Nat → Position → List Char → Option (List JsonValue × List Char)
  | 0, _, _ => none
  | fuel + 1, position, cs =>
    let item (cs : List Char) : Option (List JsonValue × List Char) := do
      let (v, rest) ← read? fuel cs
      let (vs, rest) ← readItems? fuel .next rest
      return (v :: vs, rest)
    match position, skipSpace cs with
    | _, ']' :: rest => some ([], rest)
    | .first, cs => item cs
    | .next, ',' :: rest => item rest
    | .next, _ => none

def readFields? : Nat → Position → List Char →
    Option (List (Option (List Char) × JsonValue) × List Char)
  | 0, _, _ => none
  | fuel + 1, position, cs =>
    let field (cs : List Char) : Option (List (Option (List Char) × JsonValue) × List Char) := do
      let rest ← expect? ['"'] (skipSpace cs)
      let (key, rest) ← readText? rest
      let rest ← expect? [':'] (skipSpace rest)
      let (v, rest) ← read? fuel rest
      let (fs, rest) ← readFields? fuel .next rest
      return ((key, v) :: fs, rest)
    match position, skipSpace cs with
    | _, '\x7d' :: rest => some ([], rest)
    | .first, cs => field cs
    | .next, ',' :: rest => field rest
    | .next, _ => none

end

def ofString? (s : String) : Option JsonValue :=
  match read? (2 * s.length + 2) s.toList with
  | some (v, rest) => if skipSpace rest = [] then some v else none
  | none => none

/-- A plain natural number of at most 64 bits. -/
def limit? : JsonValue → Option Nat
  | number ds => if ds.all isDigit && ofDigits 0 ds < 0x10000000000000000 then some (ofDigits 0 ds) else none
  | _ => none

end JsonValue

/-! ## Configurations -/

namespace Config

def limitNames : List String := ["max_match_steps", "max_template_alternatives", "max_segments"]

/-- The configuration of limits in order, where those that are missing keep their defaults. -/
def ofLimits (steps alternatives segments : Option Nat) : Config :=
  let d : Config := {}
  ⟨steps.getD d.maxMatchSteps, alternatives.getD d.maxTemplateAlternatives,
    segments.getD d.maxSegments⟩

/-- The limits among the fields of an object, by name. Other fields are passed over. -/
def readLimits? : List (Option (List Char) × JsonValue) → Option (List (String × Nat))
  | [] => some []
  | (none, _) :: _ => none
  | (some key, v) :: rest => do
    let name := String.ofList key
    let more ← readLimits? rest
    if limitNames.contains name then
      if (more.lookup name).isSome then none else return (name, ← v.limit?) :: more
    else return more

def ofJson? : JsonValue → Option Config
  | .object fields =>
    (readLimits? fields).map fun limits =>
      ofLimits (limits.lookup "max_match_steps") (limits.lookup "max_template_alternatives")
        (limits.lookup "max_segments")
  | .array items =>
    if 3 < items.length then none
    else (items.mapM JsonValue.limit?).map fun ls => ofLimits ls[0]? ls[1]? ls[2]?
  | _ => none

def ofString? (s : String) : Option Config := (JsonValue.ofString? s).bind ofJson?

end Config

end UriRouting

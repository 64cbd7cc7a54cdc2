import UriRouting.Numeric.Integer
import UriRouting.Pattern.Layout
/-!
Reading the text of a pattern.

A pattern is a row of items with bars between alternatives. Items are characters, classes in
brackets, groups, assertions and escapes, each with repetition marks behind it. Flags at the start of
a group change how the rest of the group is read.
-/

namespace UriRouting

open Numeric Text

inductive PatternFault
  | unclosedGroup
  | unopenedGroup
  | groupName
  | groupFlags
  | lookAround
  | backreference
  | missingOperand
  | repetitionCount
  | escape
  | codePoint
  | property
  | unclosedClass
  | classRange
  | classItem
  | unicodeNeeded
  | tooDeep
  | tooLarge
  deriving DecidableEq, Repr

def PatternFault.message : PatternFault → String
  | unclosedGroup => "a group is not closed"
  | unopenedGroup => "a group is closed that was not opened"
  | groupName => "a group has no valid name of its own"
  | groupFlags => "the flags of a group are not valid"
  | lookAround => "looking ahead or behind is not supported"
  | backreference => "references to groups are not supported"
  | missingOperand => "there is nothing to repeat"
  | repetitionCount => "a repetition count is not valid"
  | escape => "an escape is not known"
  | codePoint => "a code point is not valid"
  | property => "a character property is not known"
  | unclosedClass => "a character class is not closed"
  | classRange => "a range of characters is not valid"
  | classItem => "an escape does not belong into a character class"
  | unicodeNeeded => "a set reaches beyond ASCII where only ASCII is meant"
  | tooDeep => "the parts are nested too deep"
  | tooLarge => "the pattern is too large"

namespace Pattern

structure Flags where
  ignoreCase : Bool := false
  multiLine : Bool := false
  dotAll : Bool := false
  unicode : Bool := true
  carriage : Bool := false
  spaced : Bool := false
  deriving Repr

namespace Flags

def fold (f : Flags) (s : CharSet) : CharSet :=
  if !f.ignoreCase then s
  else if f.unicode then .ignoringCase s
  else .union s (.inter (.ignoringCase s) .asciiLetters)

def wordChars (f : Flags) : CharSet := if f.unicode then .wordChars else .asciiWordChars

def set? (f : Flags) (letter : Char) (on : Bool) : Option Flags :=
  match letter with
  | 'i' => some { f with ignoreCase := on }
  | 'm' => some { f with multiLine := on }
  | 's' => some { f with dotAll := on }
  | 'U' => some f
  | 'u' => some { f with unicode := on }
  | 'R' => some { f with carriage := on }
  | 'x' => some { f with spaced := on }
  | _ => none

end Flags

def skipComment : List Char → List Char := fun cs => (cs.dropWhile (· ≠ '\n')).drop 1

/-- Skips blanks and comments, at most as many as the fuel. -/
def skipSpace : Nat → List Char → List Char
  | 0, cs => cs
  | n + 1, cs =>
    match cs.dropWhile isBlank with
    | '#' :: rest => skipSpace n (skipComment rest)
    | rest => rest

def Flags.skip (f : Flags) (cs : List Char) : List Char :=
  if f.spaced then skipSpace (cs.length + 1) cs else cs

/-! ## Escapes -/

inductive Escaped
  | literal (c : Char)
  | set (s : CharSet)
  | assertion (a : Assertion)

def isMeta (c : Char) : Bool := "\\.+*?()|[]\x7b\x7d^$#&-~".toList.contains c

def isEscapable (c : Char) : Bool :=
  isMeta c || (c.toNat < 0x80 && !c.isAlphanum && c ≠ '<' && c ≠ '>')

def hexValue? (c : Char) : Option Nat :=
  if isDigit c then some (digitValue c)
  else if 'a' ≤ c && c ≤ 'f' then some (c.toNat - 'a'.toNat + 10)
  else if 'A' ≤ c && c ≤ 'F' then some (c.toNat - 'A'.toNat + 10)
  else none

def charOfHex (digits : List Char) : Except PatternFault Char :=
  match digits.mapM hexValue? with
  | some ds =>
    let n := ds.foldl (fun n d => 16 * n + d) 0
    if ds ≠ [] && n.isValidChar then .ok (Char.ofNat n) else .error .codePoint
  | none => .error .codePoint

/-- A character by its code point, in braces or with a fixed number of digits. -/
def readHex (width : Nat) : List Char → Except PatternFault (Char × List Char)
  | '\x7b' :: cs => do
    let digits := cs.takeWhile (· ≠ '\x7d')
    let c ← charOfHex digits
    match cs.drop digits.length with
    | _ :: rest => return (c, rest)
    | [] => .error .codePoint
  | cs => do
    if cs.length < width then .error .codePoint
    return (← charOfHex (cs.take width), cs.drop width)

def readPropertyName (name : List Char) : Except PatternFault CharSet :=
  let find (n : List Char) (negated : Bool) : Except PatternFault CharSet :=
    match CharSet.property? (String.ofList n) with
    | some s => .ok (if negated then .complement s else s)
    | none => .error .property
  let isSplit (c : Char) : Bool := c = '=' || c = ':'
  match name.dropWhile (!isSplit ·) with
  | [] => find name false
  | _ :: value =>
    let key := name.takeWhile (!isSplit ·)
    let negated := key.getLast? = some '!'
    let key := String.ofList ((if negated then key.dropLast else key).map Char.toLower)
    if ["gc", "general_category", "generalcategory"].contains key then find value negated
    else .error .property

def readProperty (f : Flags) (negated : Bool) (cs : List Char) :
    Except PatternFault (CharSet × List Char) := do
  if !f.unicode then .error .unicodeNeeded
  let (set, rest) ← match cs with
    | '\x7b' :: cs =>
      let name := cs.takeWhile (· ≠ '\x7d')
      if name.length = cs.length then .error .property
      else pure (← readPropertyName name, cs.drop (name.length + 1))
    | c :: cs => pure (← readPropertyName [c], cs)
    | [] => .error .escape
  let set := f.fold set
  return (if negated then .complement set else set, rest)

/-- The set of a letter such as `d`, negated for a capital. -/
def classOfLetter (f : Flags) (c : Char) : Except PatternFault CharSet :=
  let base : CharSet :=
    if c.toLower = 'd' then (if f.unicode then .digits else .asciiDigits)
    else if c.toLower = 's' then (if f.unicode then .blanks else .asciiBlanks)
    else f.wordChars
  if c.isUpper then (if f.unicode then .ok (.complement base) else .error .unicodeNeeded)
  else .ok base

/-- The names that may follow a word boundary in braces. -/
def namedBoundary? (word : CharSet) (name : String) : Option Assertion :=
  match name with
  | "start" => some (.wordStart word)
  | "end" => some (.wordEnd word)
  | "start-half" => some (.noWordBefore word)
  | "end-half" => some (.noWordAfter word)
  | _ => none

/-- A word boundary, perhaps with a name in braces. Braces that hold no name are left to be read as a
count. -/
def readBoundary (f : Flags) (cs : List Char) : Except PatternFault (Escaped × List Char) :=
  let plain : Escaped := .assertion (.boundary f.wordChars)
  match cs with
  | '\x7b' :: inner =>
    let isNameChar (c : Char) : Bool := c.isAlpha || c = '-'
    let name := (f.skip inner).takeWhile isNameChar
    if name = [] then .ok (plain, cs)
    else match (f.skip inner).drop name.length with
      | '\x7d' :: rest =>
        match namedBoundary? f.wordChars (String.ofList name) with
        | some a => .ok (.assertion a, rest)
        | none => .error .escape
      | _ => .error .escape
  | _ => .ok (plain, cs)

def literalOf (f : Flags) (c : Char) : Except PatternFault Escaped :=
  if f.unicode || c.toNat < 0x80 then .ok (.literal c) else .error .unicodeNeeded

def readEscape (f : Flags) : List Char → Except PatternFault (Escaped × List Char)
  | [] => .error .escape
  | c :: cs =>
    if isDigit c then .error .backreference
    else if c = 'x' || c = 'u' || c = 'U' then do
      let (h, rest) ← readHex (if c = 'x' then 2 else if c = 'u' then 4 else 8) (f.skip cs)
      return (← literalOf f h, rest)
    else if c = 'p' || c = 'P' then
      (readProperty f (c = 'P') (f.skip cs)).map fun (s, rest) => (.set s, rest)
    else if "dswDSW".toList.contains c then (classOfLetter f c).map fun s => (.set s, cs)
    else if isEscapable c then .ok (.literal c, cs)
    else match c with
      | 'a' => .ok (.literal '\x07', cs)
      | 'f' => .ok (.literal '\x0c', cs)
      | 't' => .ok (.literal '\t', cs)
      | 'n' => .ok (.literal '\n', cs)
      | 'r' => .ok (.literal '\r', cs)
      | 'v' => .ok (.literal '\x0b', cs)
      | 'A' => .ok (.assertion .textStart, cs)
      | 'z' => .ok (.assertion .textEnd, cs)
      | 'b' => readBoundary f cs
      | 'B' => .ok (.assertion (.notBoundary f.wordChars), cs)
      | '<' => .ok (.assertion (.wordStart f.wordChars), cs)
      | '>' => .ok (.assertion (.wordEnd f.wordChars), cs)
      | _ => .error .escape

/-! ## Classes in brackets -/

/-- The operations between sets in a class. They bind less than union and group to the left. -/
inductive SetOperation
  | inter
  | difference
  | symmetricDifference

def SetOperation.apply : SetOperation → CharSet → CharSet → CharSet
  | inter => .inter
  | difference => .difference
  | symmetricDifference => .symmetricDifference

structure OpenClass where
  negated : Bool
  /-- What stands before the last operation. -/
  left : Option (CharSet × SetOperation) := none
  /-- The sets since then. -/
  items : List CharSet := []

namespace OpenClass

def current (c : OpenClass) (f : Flags) : CharSet :=
  let right := CharSet.unions c.items
  match c.left with
  | none => right
  | some (left, op) => op.apply (f.fold left) (f.fold right)

def operate (c : OpenClass) (f : Flags) (op : SetOperation) : OpenClass :=
  { c with left := some (c.current f, op), items := [] }

def add (c : OpenClass) (s : CharSet) : OpenClass := { c with items := s :: c.items }

def close (c : OpenClass) (f : Flags) : CharSet :=
  let set := f.fold (c.current f)
  if c.negated then .complement set else set

end OpenClass

def readClassItem (f : Flags) : List Char → Except PatternFault (Escaped × List Char)
  | [] => .error .unclosedClass
  | '\\' :: cs => readEscape f cs
  | c :: cs => (literalOf f c).map (·, cs)

def setOfItem : Escaped → Except PatternFault CharSet
  | .literal c => .ok (.single c)
  | .set s => .ok s
  | .assertion _ => .error .classItem

def endOfRange : Escaped → Except PatternFault Char
  | .literal c => .ok c
  | _ => .error .classRange

/-- An item or a range of a class. A hyphen before a bracket or another hyphen makes no range. -/
def readClassRange (f : Flags) (cs : List Char) : Except PatternFault (CharSet × List Char) := do
  let (first, rest) ← readClassItem f cs
  match f.skip rest with
  | [] => .error .unclosedClass
  | '-' :: after =>
    match f.skip after with
    | [] => .error .unclosedClass
    | ']' :: _ | '-' :: _ => return (← setOfItem first, f.skip rest)
    | after =>
      let (last, rest) ← readClassItem f after
      let a ← endOfRange first
      let b ← endOfRange last
      if b < a then .error .classRange
      return (.range a b, rest)
  | rest => return (← setOfItem first, rest)

def readNamedAscii? : List Char → Option (CharSet × List Char)
  | ':' :: cs =>
    let (negated, cs) := match cs with
      | '^' :: cs => (true, cs)
      | cs => (false, cs)
    let name := cs.takeWhile (· ≠ ':')
    match cs.drop name.length, CharSet.namedAscii? (String.ofList name) with
    | ':' :: ']' :: rest, some s => some (if negated then .complement s else s, rest)
    | _, _ => none
  | _ => none

/-- Opens a class after its bracket. Hyphens and a closing bracket at its start stand for
themselves. -/
def openClass (f : Flags) (cs : List Char) : OpenClass × List Char :=
  let (negated, cs) := match f.skip cs with
    | '^' :: cs => (true, f.skip cs)
    | cs => (false, cs)
  let hyphens := cs.takeWhile (· = '-')
  let c : OpenClass := { negated, items := hyphens.map CharSet.single }
  match hyphens, cs.drop hyphens.length with
  | [], ']' :: rest => (c.add (.single ']'), rest)
  | _, rest => (c, rest)

/-- Reads a class up to its closing bracket, with fuel for each of its items. -/
def readClass (f : Flags) : Nat → OpenClass → List Char → Except PatternFault (CharSet × List Char)
  | 0, _, _ => .error .unclosedClass
  | fuel + 1, c, cs =>
    match f.skip cs with
    | [] => .error .unclosedClass
    | ']' :: rest => .ok (c.close f, rest)
    | '[' :: rest =>
      match readNamedAscii? rest with
      | some (s, rest) => readClass f fuel (c.add s) rest
      | none => do
        let (inner, rest) := openClass f rest
        let (s, rest) ← readClass f fuel inner rest
        readClass f fuel (c.add s) rest
    | '&' :: '&' :: rest => readClass f fuel (c.operate f .inter) rest
    | '-' :: '-' :: rest => readClass f fuel (c.operate f .difference) rest
    | '~' :: '~' :: rest => readClass f fuel (c.operate f .symmetricDifference) rest
    | cs => do
      let (s, rest) ← readClassRange f cs
      readClass f fuel (c.add s) rest

/-! ## Groups -/

/-- Alphabetic characters of any script, and what else a group's name may hold after its first
character. -/
def isGroupNameChar (first : Bool) (c : Char) : Bool :=
  c = '_' || isAlphabetic c
    || (!first && (c = '.' || c = '[' || c = ']' || inCategories Category.numbers c))

def readGroupName (names : List String) (cs : List Char) :
    Except PatternFault (String × List Char) :=
  let name := cs.takeWhile (· ≠ '>')
  let text := String.ofList name
  match name, cs.drop name.length with
  | c :: more, _ :: rest =>
    if isGroupNameChar true c && more.all (isGroupNameChar false) && !names.contains text then
      .ok (text, rest)
    else .error .groupName
  | _, _ => .error .groupName

/-- The flags of a group up to its colon or closing parenthesis, which is left. `seen` holds the
letters read; `on` says whether they set flags, and `dangling` that a minus was the last character. -/
def readFlags (f : Flags) (seen : List Char) (on dangling : Bool) :
    List Char → Except PatternFault (Flags × List Char)
  | [] => .error .groupFlags
  | c :: cs =>
    if c = ':' || c = ')' then (if dangling then .error .groupFlags else .ok (f, c :: cs))
    else if c = '-' then (if on then readFlags f seen false true cs else .error .groupFlags)
    else if seen.contains c then .error .groupFlags
    else match f.set? c on with
      | some f => readFlags f (c :: seen) on false cs
      | none => .error .groupFlags

inductive GroupStart
  /-- A group, with the flags inside it and its name, which may capture what it matches. -/
  | group (flags : Flags) (name? : Option String) (captures : Bool)
  | flags (flags : Flags)

def readGroupStart (f : Flags) (names : List String) (cs : List Char) :
    Except PatternFault (GroupStart × List Char) :=
  match f.skip cs with
  | '?' :: '=' :: _ | '?' :: '!' :: _ | '?' :: '<' :: '=' :: _ | '?' :: '<' :: '!' :: _ =>
    .error .lookAround
  | '?' :: 'P' :: '<' :: cs | '?' :: '<' :: cs =>
    (readGroupName names cs).map fun (name, rest) => (.group f (some name) true, rest)
  | '?' :: cs => do
    let (flags, rest) ← readFlags f [] true false cs
    match rest with
    | ')' :: rest => if cs.head? = some ')' then .error .missingOperand else return (.flags flags, rest)
    | _ => return (.group flags none false, rest.drop 1)
  | cs => .ok (.group f none true, cs)

/-! ## Repetition -/

def readCount (cs : List Char) : Except PatternFault (Nat × List Char) :=
  let cs := cs.dropWhile isBlank
  let ds := cs.takeWhile isDigit
  let n := ofDigits 0 ds
  if ds = [] || 0x100000000 ≤ n then .error .repetitionCount
  else .ok (n, (cs.drop ds.length).dropWhile isBlank)

def readBounds (f : Flags) (cs : List Char) : Except PatternFault (Nat × Option Nat × List Char) := do
  let (least, rest) ← readCount (f.skip cs)
  match rest with
  | '\x7d' :: rest => return (least, some least, rest)
  | ',' :: rest =>
    match f.skip rest with
    | '\x7d' :: rest => return (least, none, rest)
    | rest =>
      let (most, rest) ← readCount rest
      match rest with
      | '\x7d' :: rest =>
        if most < least then .error .repetitionCount
        return (least, some most, rest)
      | _ => .error .repetitionCount
  | _ => .error .repetitionCount

/-- Drops the mark that asks for the shortest match. Whether a text matches does not depend on it. -/
def dropLazy : List Char → List Char
  | '?' :: cs => cs
  | cs => cs

/-- Repeats the last of the items, which are newest first. Flags, kept as `none`, cannot be
repeated. -/
def repeatLast (least : Nat) (most : Option Nat) :
    List (Option Pattern) → Except PatternFault (List (Option Pattern))
  | some p :: items => .ok (some (.repeated p least most) :: items)
  | _ => .error .missingOperand

/-! ## Rows -/

def ofEscaped (f : Flags) : Escaped → Pattern
  | .literal c => .char (f.fold (.single c))
  | .set s => .char s
  | .assertion a => .assertion a

structure OpenRow where
  alternatives : List Pattern := []
  items : List (Option Pattern) := []

namespace OpenRow

def last (r : OpenRow) : Pattern := concats (r.items.reverse.map (·.getD .empty))

def bar (r : OpenRow) : OpenRow := ⟨r.last :: r.alternatives, []⟩

def add (r : OpenRow) (p : Pattern) : OpenRow := { r with items := some p :: r.items }

def close (r : OpenRow) : Pattern := r.alternatives.foldl (fun p q => .either q p) r.last

end OpenRow

def dotSet (f : Flags) : Except PatternFault CharSet :=
  if !f.unicode then .error .unicodeNeeded
  else if f.dotAll then .ok .any
  else if f.carriage then .ok (.complement (.ofString "\r\n"))
  else .ok (.complement (.single '\n'))

def readAtom (f : Flags) : List Char → Except PatternFault (Pattern × List Char)
  | [] => .error .escape
  | '\\' :: cs => (readEscape f cs).map fun (e, rest) => (ofEscaped f e, rest)
  | '.' :: cs => (dotSet f).map fun s => (.char s, cs)
  | '^' :: cs => .ok (.assertion (if f.multiLine then .lineStart f.carriage else .textStart), cs)
  | '$' :: cs => .ok (.assertion (if f.multiLine then .lineEnd f.carriage else .textEnd), cs)
  | c :: cs => (literalOf f c).map fun e => (ofEscaped f e, cs)

/-- Reads a row up to its closing parenthesis or the end, which is left. The names of the groups
read are passed on. Each item takes fuel. -/
def readRow : Nat → Flags → List String → OpenRow → List Char →
    Except PatternFault (Pattern × List String × List Char)
  | 0, _, _, _, _ => .error .unclosedGroup
  | fuel + 1, f, names, row, cs =>
    match f.skip cs with
    | [] => .ok (row.close, names, [])
    | ')' :: rest => .ok (row.close, names, ')' :: rest)
    | '|' :: rest => readRow fuel f names row.bar rest
    | '(' :: rest => do
      let (start, rest) ← readGroupStart f names rest
      match start with
      | .flags f => readRow fuel f names { row with items := none :: row.items } rest
      | .group inner name? captures =>
        let (p, names, rest) ← readRow fuel inner (name?.toList ++ names) {} rest
        match rest with
        | _ :: rest => readRow fuel f names (row.add (.group captures p)) rest
        | [] => .error .unclosedGroup
    | '[' :: rest => do
      let (c, rest) := openClass f rest
      if c.negated && !f.unicode then throw .unicodeNeeded
      let (s, rest) ← readClass f (rest.length + 1) c rest
      readRow fuel f names (row.add (.group false (.char s))) rest
    | '?' :: rest => do
      readRow fuel f names { row with items := ← repeatLast 0 (some 1) row.items } (dropLazy rest)
    | '*' :: rest => do
      readRow fuel f names { row with items := ← repeatLast 0 none row.items } (dropLazy rest)
    | '+' :: rest => do
      readRow fuel f names { row with items := ← repeatLast 1 none row.items } (dropLazy rest)
    | '\x7b' :: rest => do
      let (least, most, rest) ← readBounds f rest
      readRow fuel f names { row with items := ← repeatLast least most row.items }
        (dropLazy (f.skip rest))
    | cs => do
      let (p, rest) ← readAtom f cs
      readRow fuel f names (row.add p) rest

def ofString (text : String) : Except PatternFault Pattern := do
  let cs := text.toList
  let (p, _, rest) ← readRow (cs.length + 1) {} [] {} cs
  match rest with
  | [] =>
    if maxLevels < p.levels then .error .tooDeep
    else if !(Plan.ofPattern p).fits then .error .tooLarge
    else return p
  | _ => .error .unopenedGroup

end Pattern

end UriRouting

import UriRouting.Pattern.Repertoire
/-!
Sets of characters, as patterns describe them.

A set is the list of its boundaries, so equal sets are equal lists. Code points that are no characters
go with the character before them.
-/

namespace UriRouting

open Text

/-- A set of characters, by the ascending code points at which membership changes: the first one
opens a range, the next one closes it, and so on. A range that is not closed goes to the end. -/
structure CharSet where
  boundaries : List Nat
  deriving DecidableEq, Repr

namespace CharSet

def contains (s : CharSet) (c : Char) : Bool := withinBoundaries s.boundaries c.toNat

/-! ## Operations -/

def empty : CharSet := ⟨[]⟩

def any : CharSet := ⟨[0]⟩

def next (n : Nat) : Nat := if n = 0xD7FF then 0xE000 else n + 1

def range (first last : Char) : CharSet :=
  if last < first then empty
  else if last.toNat = 0x10FFFF then ⟨[first.toNat]⟩
  else ⟨[first.toNat, next last.toNat]⟩

def single (c : Char) : CharSet := range c c

def complement (s : CharSet) : CharSet :=
  match s.boundaries with
  | 0 :: rest => ⟨rest⟩
  | bs => ⟨0 :: bs⟩

/-- The boundaries of a set made from two others, whose own boundaries are left. `a` and `b` tell
whether the two hold the code points in front of these, and `op` what that means for the new set. -/
def merge (op : Bool → Bool → Bool) (a b : Bool) : List Nat → List Nat → List Nat
  | [], [] => []
  | x :: xs, [] => crossing x (op a b) (op (!a) b) (merge op (!a) b xs [])
  | [], y :: ys => crossing y (op a b) (op a (!b)) (merge op a (!b) [] ys)
  | x :: xs, y :: ys =>
    if x < y then crossing x (op a b) (op (!a) b) (merge op (!a) b xs (y :: ys))
    else if y < x then crossing y (op a b) (op a (!b)) (merge op a (!b) (x :: xs) ys)
    else crossing x (op a b) (op (!a) (!b)) (merge op (!a) (!b) xs ys)
termination_by xs ys => xs.length + ys.length
where
  crossing (x : Nat) (before after : Bool) (rest : List Nat) : List Nat :=
    if before = after then rest else x :: rest

/-- The set that an operation makes from two others. It must not hold what neither of them holds. -/
def combine (op : Bool → Bool → Bool) (s t : CharSet) : CharSet :=
  ⟨merge op false false s.boundaries t.boundaries⟩

def union : CharSet → CharSet → CharSet := combine (· || ·)

def inter : CharSet → CharSet → CharSet := combine (· && ·)

def difference : CharSet → CharSet → CharSet := combine fun a b => a && !b

def symmetricDifference : CharSet → CharSet → CharSet := combine (· != ·)

def unions (ss : List CharSet) : CharSet := ss.foldr union empty

def ofString (s : String) : CharSet := unions (s.toList.map single)

def ofPoints (ns : List Nat) : CharSet :=
  ⟨(ns.mergeSort (· ≤ ·)).foldr step []⟩
where
  /-- Adds a code point that is no greater than the others. -/
  step (n : Nat) : List Nat → List Nat
    | m :: bs => if n = m then m :: bs else if next n = m then n :: bs else n :: next n :: m :: bs
    | [] => [n, next n]

/-- The set with all characters that equal one of its own when case is ignored. -/
def ignoringCase (s : CharSet) : CharSet :=
  let members := Repertoire.cased.filter (withinBoundaries s.boundaries)
  s.union (ofPoints (members.flatMap Repertoire.caseVariants))

/-! ## Ranges -/

/-- The ranges between boundaries, by their first and last code points. -/
def rangesBetween : List Nat → List (Nat × Nat)
  | first :: stop :: bs => (first, stop - 1) :: rangesBetween bs
  | [first] => [(first, 0x10FFFF)]
  | [] => []

def ranges (s : CharSet) : List (Nat × Nat) := rangesBetween s.boundaries

def isAscii (s : CharSet) : Bool := s.ranges.all (·.2 < 0x80)

def single? (s : CharSet) : Option Char :=
  match s.boundaries with
  | [first, stop] => if stop = next first then some (Char.ofNat first) else none
  | [0x10FFFF] => some (Char.ofNat 0x10FFFF)
  | _ => none

/-! ## Common sets -/

/-- The characters of some categories. The pharyngeal fricative, since then a letter without case, is a
lowercase letter. -/
def categories (ks : List Category) : CharSet :=
  let listed := unions (ks.map fun k => ⟨k.boundaries⟩)
  let fricative := single 'ʕ'
  let set := listed.difference ⟨Repertoire.additions⟩
  if ks.contains .lowercaseLetter then set.union fricative else set.difference fricative

def blanks : CharSet :=
  ⟨[0x09, 0x0E, 0x20, 0x21, 0x85, 0x86, 0xA0, 0xA1, 0x1680, 0x1681, 0x2000, 0x200B, 0x2028, 0x202A,
    0x202F, 0x2030, 0x205F, 0x2060, 0x3000, 0x3001]⟩

def digits : CharSet := categories [.decimalDigit]

/-- Letters, marks, digits and connectors, with the signs that count as letters. -/
def wordChars : CharSet :=
  unions [
    range 'a' 'z', range 'A' 'Z', range '0' '9', single '_',
    categories (Category.letters ++ Category.marks
      ++ [.decimalDigit, .letterNumber, .connectorPunctuation]),
    range '\u200c' '\u200d', range 'Ⓐ' 'ⓩ', range '🄰' '🅉', range '🅐' '🅩', range '🅰' '🆉']

def asciiDigits : CharSet := range '0' '9'

def asciiLetters : CharSet := union (range 'a' 'z') (range 'A' 'Z')

def asciiBlanks : CharSet := union (range '\t' '\x0d') (single ' ')

def asciiWordChars : CharSet := unions [asciiLetters, asciiDigits, single '_']

def namedAscii? : String → Option CharSet
  | "alnum" => some (union asciiLetters asciiDigits)
  | "alpha" => some asciiLetters
  | "ascii" => some (range '\x00' '\x7f')
  | "blank" => some (ofString "\t ")
  | "cntrl" => some (union (range '\x00' '\x1f') (single '\x7f'))
  | "digit" => some asciiDigits
  | "graph" => some (range '!' '~')
  | "lower" => some (range 'a' 'z')
  | "print" => some (range ' ' '~')
  | "punct" => some (unions [range '!' '/', range ':' '@', range '[' '\x60', range '\x7b' '~'])
  | "space" => some asciiBlanks
  | "upper" => some (range 'A' 'Z')
  | "word" => some asciiWordChars
  | "xdigit" => some (unions [asciiDigits, range 'a' 'f', range 'A' 'F'])
  | _ => none

/-! ## Properties -/

def unassigned : CharSet := complement (categories Category.all)

/-- The names of properties, without spaces, hyphens and underscores and in lower case. -/
def properties : List (List String × CharSet) := [
  (["l", "letter"], categories Category.letters),
  (["lc", "casedletter"], categories [.uppercaseLetter, .lowercaseLetter, .titlecaseLetter]),
  (["lu", "uppercaseletter"], categories [.uppercaseLetter]),
  (["ll", "lowercaseletter"], categories [.lowercaseLetter]),
  (["lt", "titlecaseletter"], categories [.titlecaseLetter]),
  (["lm", "modifierletter"], categories [.modifierLetter]),
  (["lo", "otherletter"], categories [.otherLetter]),
  (["m", "mark", "combiningmark"], categories Category.marks),
  (["mn", "nonspacingmark"], categories [.nonspacingMark]),
  (["mc", "spacingmark"], categories [.spacingMark]),
  (["me", "enclosingmark"], categories [.enclosingMark]),
  (["n", "number"], categories Category.numbers),
  (["nd", "decimalnumber", "digit"], categories [.decimalDigit]),
  (["nl", "letternumber"], categories [.letterNumber]),
  (["no", "othernumber"], categories [.otherNumber]),
  (["p", "punctuation", "punct"], categories Category.punctuation),
  (["pc", "connectorpunctuation"], categories [.connectorPunctuation]),
  (["pd", "dashpunctuation"], categories [.dashPunctuation]),
  (["ps", "openpunctuation"], categories [.openPunctuation]),
  (["pe", "closepunctuation"], categories [.closePunctuation]),
  (["pi", "initialpunctuation"], categories [.initialPunctuation]),
  (["pf", "finalpunctuation"], categories [.finalPunctuation]),
  (["po", "otherpunctuation"], categories [.otherPunctuation]),
  (["s", "symbol"], categories Category.symbols),
  (["sm", "mathsymbol"], categories [.mathSymbol]),
  (["sc", "currencysymbol"], categories [.currencySymbol]),
  (["sk", "modifiersymbol"], categories [.modifierSymbol]),
  (["so", "othersymbol"], categories [.otherSymbol]),
  (["z", "separator"], categories Category.separators),
  (["zs", "spaceseparator"], categories [.spaceSeparator]),
  (["zl", "lineseparator"], categories [.lineSeparator]),
  (["zp", "paragraphseparator"], categories [.paragraphSeparator]),
  (["c", "other"], union (categories Category.others) unassigned),
  (["cc", "control", "cntrl"], categories [.control]),
  (["cf", "format"], categories [.formatCharacter]),
  (["cn", "unassigned"], unassigned),
  (["co", "privateuse"], categories [.privateUse]),
  (["any"], any),
  (["assigned"], categories Category.all),
  (["ascii"], range '\x00' '\x7f'),
  (["whitespace", "wspace", "space"], blanks)]

def property? (name : String) : Option CharSet :=
  let plain := (name.toList.filter fun c => !([' ', '_', '-'].contains c)).map Char.toLower
  let key := String.ofList (if plain.take 2 = ['i', 's'] then plain.drop 2 else plain)
  (properties.find? (·.1.contains key)).map (·.2)

end CharSet

end UriRouting

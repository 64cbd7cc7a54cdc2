import UriRouting.Text.Category
import UriRouting.Text.LetterCase.Table
/-!
Lowercase text and comparison without regard to case.

Lowercasing works on whole texts: a capital sigma that ends a word becomes the final sigma, and the
dotted capital I becomes two characters.
-/

namespace UriRouting.Text

/-! ## Single characters -/

/-- The partner of a code point under a table, itself when the table has none. -/
def partner (ranges : List CaseRange) (n : Nat) : Nat :=
  match ranges.find? fun r => r.first ≤ n && n ≤ r.last && (n - r.first) % r.step = 0 with
  | some r => (n + r.offset).toNat
  | none => n

def lowerChar (c : Char) : Char :=
  if c.toNat < 0x80 then c.toLower else Char.ofNat (partner CaseRange.toLowercase c.toNat)

/-- One character for all those that are equal when case is ignored. -/
def foldChar (c : Char) : Char :=
  if c.toNat < 0x80 then c.toLower else Char.ofNat (partner CaseRange.toFolded c.toNat)

def caseVariants (c : Char) : List Char :=
  let f := foldChar c
  f :: CaseRange.toFolded.filterMap fun r =>
    let n : Int := f.toNat - r.offset
    if r.first ≤ n && n ≤ r.last && (n - r.first) % r.step = 0 then some (Char.ofNat n.toNat)
    else none

/-! ## Words -/

/-- Code points that have case without being letters of a cased category. -/
def otherCased : List Nat := [
    0xAA, 0xAB, 0xBA, 0xBB, 0x2B0, 0x2B9, 0x2C0, 0x2C2, 0x2E0, 0x2E5, 0x345, 0x346, 0x37A, 0x37B,
    0x10FC, 0x10FD, 0x1D2C, 0x1D6B, 0x1D78, 0x1D79, 0x1D9B, 0x1DC0, 0x2071, 0x2072, 0x207F,
    0x2080, 0x2090, 0x209D, 0x2160, 0x2180, 0x24B6, 0x24EA, 0x2C7C, 0x2C7E, 0xA69C, 0xA69E,
    0xA770, 0xA771, 0xA7F1, 0xA7F5, 0xA7F8, 0xA7FA, 0xAB5C, 0xAB60, 0xAB69, 0xAB6A, 0x10780,
    0x10781, 0x10783, 0x10786, 0x10787, 0x107B1, 0x107B2, 0x107BB, 0x1E030, 0x1E06E, 0x1F130,
    0x1F14A, 0x1F150, 0x1F16A, 0x1F170, 0x1F18A]

def isCased (c : Char) : Bool :=
  inCategories [.uppercaseLetter, .lowercaseLetter, .titlecaseLetter] c
    || withinBoundaries otherCased c.toNat

def innerPunctuation : List Nat :=
  [0x27, 0x2E, 0x3A, 0xB7, 0x387, 0x55F, 0x5F4, 0x2018, 0x2019, 0x2024, 0x2027, 0xFE13, 0xFE52,
    0xFE55, 0xFF07, 0xFF0E, 0xFF1A]

/-- Whether a character is passed over when looking for the neighbouring letter of a word. -/
def isCaseIgnorable (c : Char) : Bool :=
  innerPunctuation.contains c.toNat
    || inCategories [.nonspacingMark, .enclosingMark, .formatCharacter, .modifierLetter,
      .modifierSymbol] c

def startsCased (cs : List Char) : Bool :=
  match cs.dropWhile isCaseIgnorable with
  | c :: _ => isCased c
  | [] => false

/-! ## Texts -/

/-- Lowercases the text after `before`, which is given nearest first. -/
def lowerAfter (before : List Char) : List Char → List Char
  | [] => []
  | c :: cs =>
    let lowered :=
      if c = 'Σ' then [if startsCased before && !startsCased cs then 'ς' else 'σ']
      else if c = 'İ' then ['i', '\u0307']
      else [lowerChar c]
    lowered ++ lowerAfter (c :: before) cs

def lowercase (s : String) : String := String.ofList (lowerAfter [] s.toList)

/-- The lowercase form of the ASCII letters of a text; all else stays. -/
def lowercaseAscii (s : String) : String := String.ofList (s.toList.map Char.toLower)

end UriRouting.Text

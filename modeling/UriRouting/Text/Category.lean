import UriRouting.Text.Category.Alphabetic
import UriRouting.Text.Category.Letter
import UriRouting.Text.Category.Mark
import UriRouting.Text.Category.Number
import UriRouting.Text.Category.Other
import UriRouting.Text.Category.Punctuation
import UriRouting.Text.Category.Symbol
/-!
The general categories of characters, and the few derived classes that the library needs: what may
be shown as it is, what extends the character before it, what counts as a blank or as alphabetic.
-/

namespace UriRouting.Text

def withinBoundaries : List Nat → Nat → Bool
  | [], _ => false
  | b :: bs, n => if n < b then false else !withinBoundaries bs n

inductive Category
  | uppercaseLetter | lowercaseLetter | titlecaseLetter | modifierLetter | otherLetter
  | nonspacingMark | spacingMark | enclosingMark
  | decimalDigit | letterNumber | otherNumber
  | connectorPunctuation | dashPunctuation | openPunctuation | closePunctuation
  | initialPunctuation | finalPunctuation | otherPunctuation
  | mathSymbol | currencySymbol | modifierSymbol | otherSymbol
  | spaceSeparator | lineSeparator | paragraphSeparator
  | control | formatCharacter | privateUse
  deriving DecidableEq, Repr

namespace Category

def boundaries : Category → List Nat
  | uppercaseLetter => uppercaseLetters
  | lowercaseLetter => lowercaseLetters
  | titlecaseLetter => titlecaseLetters
  | modifierLetter => modifierLetters
  | otherLetter => otherLetters
  | nonspacingMark => nonspacingMarks
  | spacingMark => spacingMarks
  | enclosingMark => enclosingMarks
  | decimalDigit => decimalDigits
  | letterNumber => letterNumbers
  | otherNumber => otherNumbers
  | connectorPunctuation => connectorPunctuationPoints
  | dashPunctuation => dashPunctuationPoints
  | openPunctuation => openPunctuationPoints
  | closePunctuation => closePunctuationPoints
  | initialPunctuation => initialPunctuationPoints
  | finalPunctuation => finalPunctuationPoints
  | otherPunctuation => otherPunctuationPoints
  | mathSymbol => mathSymbols
  | currencySymbol => currencySymbols
  | modifierSymbol => modifierSymbols
  | otherSymbol => otherSymbols
  | spaceSeparator => spaceSeparators
  | lineSeparator => lineSeparators
  | paragraphSeparator => paragraphSeparators
  | control => controls
  | formatCharacter => formatCharacters
  | privateUse => privateUsePoints

def contains (k : Category) (c : Char) : Bool := withinBoundaries k.boundaries c.toNat

def letters : List Category :=
  [uppercaseLetter, lowercaseLetter, titlecaseLetter, modifierLetter, otherLetter]

def marks : List Category := [nonspacingMark, spacingMark, enclosingMark]

def numbers : List Category := [decimalDigit, letterNumber, otherNumber]

def punctuation : List Category :=
  [connectorPunctuation, dashPunctuation, openPunctuation, closePunctuation, initialPunctuation,
    finalPunctuation, otherPunctuation]

def symbols : List Category := [mathSymbol, currencySymbol, modifierSymbol, otherSymbol]

def separators : List Category := [spaceSeparator, lineSeparator, paragraphSeparator]

def others : List Category := [control, formatCharacter, privateUse]

def all : List Category :=
  letters ++ marks ++ numbers ++ punctuation ++ symbols ++ separators ++ others

end Category

def inCategories (ks : List Category) (c : Char) : Bool := ks.any (·.contains c)

/-- Blank characters: the ASCII blanks, the next-line control and every separator. -/
def isBlank (c : Char) : Bool :=
  let n := c.toNat
  (0x09 ≤ n && n ≤ 0x0D) || n = 0x20 || n = 0x85 || n = 0xA0 || n = 0x1680
    || (0x2000 ≤ n && n ≤ 0x200A) || n = 0x2028 || n = 0x2029 || n = 0x202F || n = 0x205F
    || n = 0x3000

def isAlphabetic (c : Char) : Bool :=
  inCategories (Category.letters ++ [.letterNumber]) c || withinBoundaries otherAlphabetics c.toNat

/-- Letters that fill a place without being seen. -/
def fillers : List Char := ['\u115f', '\u1160', '\u3164', '\uffa0']

def isPrintable (c : Char) : Bool :=
  if c.toNat < 0x7F then 0x20 ≤ c.toNat
  else !fillers.contains c
    && inCategories
      (Category.letters ++ Category.marks ++ Category.numbers ++ Category.punctuation
        ++ Category.symbols) c

/-- Code points outside the nonspacing and enclosing marks that extend the character before them.
The halfwidth sound marks, which are letters with a width of their own, are not among them. -/
def graphemeExtenders : List Nat := [
    0x9BE, 0x9BF, 0x9D7, 0x9D8, 0xB3E, 0xB3F, 0xB57, 0xB58, 0xBBE, 0xBBF, 0xBD7, 0xBD8, 0xCC0,
    0xCC1, 0xCC2, 0xCC3, 0xCC7, 0xCC9, 0xCCA, 0xCCC, 0xCD5, 0xCD7, 0xD3E, 0xD3F, 0xD57, 0xD58,
    0xDCF, 0xDD0, 0xDDF, 0xDE0, 0x1715, 0x1716, 0x1734, 0x1735, 0x1B35, 0x1B36, 0x1B3B, 0x1B3C,
    0x1B3D, 0x1B3E, 0x1B43, 0x1B45, 0x1BAA, 0x1BAB, 0x1BF2, 0x1BF4, 0x200C, 0x200D, 0x302E,
    0x3030, 0xA953, 0xA954, 0xA9C0, 0xA9C1, 0x111C0, 0x111C1, 0x11235, 0x11236,
    0x1133E, 0x1133F, 0x1134D, 0x1134E, 0x11357, 0x11358, 0x113B8, 0x113B9, 0x113C2, 0x113C3,
    0x113C5, 0x113C6, 0x113C7, 0x113CA, 0x113CF, 0x113D0, 0x114B0, 0x114B1, 0x114BD, 0x114BE,
    0x115AF, 0x115B0, 0x116B6, 0x116B7, 0x11930, 0x11931, 0x1193D, 0x1193E, 0x11F41, 0x11F42,
    0x16FF0, 0x16FF2, 0x1D165, 0x1D167, 0x1D16D, 0x1D173, 0xE0020, 0xE0080]

/-- Whether a character extends the one before it instead of standing alone. -/
def extendsGrapheme (c : Char) : Bool :=
  0x300 ≤ c.toNat
    && (inCategories [.nonspacingMark, .enclosingMark] c
      || withinBoundaries graphemeExtenders c.toNat)

end UriRouting.Text

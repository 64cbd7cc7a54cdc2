import UriRouting.Numeric.Binary64
import UriRouting.Numeric.Integer
/-!
Reading floating-point numbers.

A number is an optional sign followed by `inf`, `infinity` or `nan` in any case, or by digits with
an optional point and an optional exponent. At least one digit stands on one side of the point, and
nothing may follow.
-/

namespace UriRouting.Numeric.Binary64

/-- The exponent after its `e`: a sign or none, then digits only, at least one. -/
def readExponent (cs : List Char) : Option Int :=
  let (negative, ds) := match cs with
    | '-' :: ds => (true, ds)
    | '+' :: ds => (false, ds)
    | ds => (false, ds)
  if ds.isEmpty || !ds.all isDigit then none
  else
    let n : Int := ofDigits 0 ds
    some (if negative then -n else n)

/-- What follows the digits of a decimal: nothing or an exponent. -/
def readScale : List Char → Option Int
  | [] => some 0
  | c :: cs => if c = 'e' || c = 'E' then readExponent cs else none

def readDecimal (negative : Bool) (cs : List Char) : Option Binary64 :=
  let whole := cs.takeWhile isDigit
  let afterWhole := cs.dropWhile isDigit
  let (fraction, rest) := match afterWhole with
    | '.' :: cs => (cs.takeWhile isDigit, cs.dropWhile isDigit)
    | cs => ([], cs)
  if whole.isEmpty && fraction.isEmpty then none
  else (readScale rest).map fun scale =>
    ofDecimal negative (ofDigits 0 (whole ++ fraction)) (scale - fraction.length)

def readName (negative : Bool) (cs : List Char) : Option Binary64 :=
  let name := String.ofList (cs.map Char.toLower)
  if name = "inf" || name = "infinity" then some (signed negative infinityPosition)
  else if name = "nan" then some nan
  else none

def readUnsigned (negative : Bool) (cs : List Char) : Option Binary64 :=
  (readDecimal negative cs).or (readName negative cs)

def read? (text : String) : Option Binary64 :=
  match text.toList with
  | '-' :: cs => readUnsigned true cs
  | '+' :: cs => readUnsigned false cs
  | cs => readUnsigned false cs

end UriRouting.Numeric.Binary64

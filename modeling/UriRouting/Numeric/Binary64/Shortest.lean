import UriRouting.Numeric.Binary64
/-!
The shortest decimal of a floating-point number, and the two texts made from it.

The reals that round to a number form an interval. From coarse to fine, the first power of ten with
a multiple in that interval fixes how many digits are written; of two multiples the nearer is taken.
-/

namespace UriRouting.Numeric.Binary64

/-! ## The digits -/

/-- A finite positive number with the interval of what rounds to it, as numerators over one
denominator. -/
structure Interval where
  low : Nat
  value : Nat
  high : Nat
  /-- Whether the ends themselves round to the number. -/
  closed : Bool
  denominator : Nat

namespace Interval

/-- The interval of a position. Below a power of two the neighbour is half as far away. -/
def ofPosition (position : Nat) : Interval :=
  let (m, q) := decode position
  let scale := Nat.pow 2 (q - 2).toNat
  let gapBelow := if m = binade && -1074 < q then 1 else 2
  { low := (4 * m - gapBelow) * scale
    value := 4 * m * scale
    high := (4 * m + 2) * scale
    closed := m % 2 = 0
    denominator := Nat.pow 2 (2 - q).toNat }

def contains (i : Interval) (n : Nat) : Bool :=
  if i.closed then i.low ≤ n && n ≤ i.high else i.low < n && n < i.high

/-- The multiple of `10 ^ p` in the interval that is nearest to the number. -/
def nearestMultiple? (i : Interval) (p : Int) : Option Nat :=
  let s : Interval :=
    { i with
      low := i.low * Nat.pow 10 (-p).toNat
      value := i.value * Nat.pow 10 (-p).toNat
      high := i.high * Nat.pow 10 (-p).toNat }
  let unit := Nat.pow 10 p.toNat * i.denominator
  let floor := s.value / unit
  match 0 < floor && s.contains (floor * unit), s.contains ((floor + 1) * unit) with
  | true, true => some (if 2 * (s.value % unit) < unit then floor else floor + 1)
  | true, false => some floor
  | false, true => some (floor + 1)
  | false, false => none

/-- The first power of ten at or below `10 ^ p` with a multiple in the interval. -/
def coarsest (i : Interval) (p : Int) : Nat → Nat × Int
  | 0 => (0, 0)
  | fuel + 1 =>
    match i.nearestMultiple? p with
    | some digits => (digits, p)
    | none => i.coarsest (p - 1) fuel

/-- A power of ten above the number, at most two places away. -/
def startPower (i : Interval) : Int :=
  if i.denominator ≤ i.value then (Nat.toDigits 10 (i.value / i.denominator)).length
  else 2 - ((Nat.toDigits 10 (i.denominator / i.value)).length : Int)

end Interval

/-- The digits and the power of ten of the shortest decimal that rounds to a positive position.
Seventeen digits always suffice. -/
def shortest (position : Nat) : List Char × Int :=
  let i := Interval.ofPosition position
  let (digits, p) := i.coarsest i.startPower 25
  (Nat.toDigits 10 digits, p)

/-! ## The texts -/

def positional (digits : List Char) (p : Int) : List Char :=
  let whole := p + digits.length
  if 0 ≤ p then digits ++ List.replicate p.toNat '0'
  else if 0 < whole then digits.take whole.toNat ++ '.' :: digits.drop whole.toNat
  else '0' :: '.' :: List.replicate (-whole).toNat '0' ++ digits

def scientific (digits : List Char) (p : Int) : List Char :=
  let exponent := p + digits.length - 1
  digits.take 1 ++ (if digits.length ≤ 1 then [] else '.' :: digits.drop 1)
    ++ 'e' :: (toString exponent).toList

/-- A number in positional notation whatever its size. -/
def plainText : Binary64 → String
  | nan => "NaN"
  | signed negative position =>
    let sign := if negative then "-" else ""
    if infinityPosition ≤ position then sign ++ "inf"
    else if position = 0 then sign ++ "0"
    else
      let (digits, p) := shortest position
      sign ++ String.ofList (positional digits p)

/-- A number in the form that shows it is no integer: with a point, or, below `10 ^ -4` and from
`10 ^ 16` on, with an exponent. -/
def explicitText : Binary64 → String
  | nan => "NaN"
  | signed negative position =>
    let sign := if negative then "-" else ""
    if infinityPosition ≤ position then sign ++ "inf"
    else if position = 0 then sign ++ "0.0"
    else
      let (digits, p) := shortest position
      let leading := p + digits.length - 1
      sign ++ String.ofList (
        if leading < -4 || 16 ≤ leading then scientific digits p
        else if 0 ≤ p then positional digits p ++ ['.', '0']
        else positional digits p)

end UriRouting.Numeric.Binary64

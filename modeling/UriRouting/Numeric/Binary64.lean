/-!
The numbers of the 64-bit binary floating-point format.

A number is a sign and a position: the non-negative numbers of the format in ascending order are
numbered from zero, infinity last. The position is the bit pattern without its sign, so that order
and equality are those of integers.
-/

namespace UriRouting.Numeric

/-- A number of the 64-bit binary format, or the value that is no number. -/
inductive Binary64
  | nan
  | signed (negative : Bool) (position : Nat)
  deriving DecidableEq, Repr

namespace Binary64

/-! ## Positions -/

def infinityPosition : Nat := 0x7FF0000000000000

def signBit : Nat := 0x8000000000000000

/-- The numbers of one exponent. -/
def binade : Nat := 0x10000000000000

def ofBits (bits : Nat) : Binary64 :=
  let position := bits % signBit
  if infinityPosition < position then nan else signed (signBit ≤ bits) position

def toBits? : Binary64 → Option Nat
  | nan => none
  | signed negative position => some (if negative then signBit + position else position)

def isFinite : Binary64 → Bool
  | nan => false
  | signed _ position => position < infinityPosition

/-- The significand and the power of two that a finite position stands for. -/
def decode (position : Nat) : Nat × Int :=
  let exponent := position / binade
  let fraction := position % binade
  if exponent = 0 then (fraction, -1074) else (binade + fraction, exponent - 1075)

/-! ## Order -/

/-- The place of a number among all numbers; both zeros have the same. -/
def rank? : Binary64 → Option Int
  | nan => none
  | signed negative position => some (if negative then -(position : Int) else position)

def le (a b : Binary64) : Bool :=
  match a.rank?, b.rank? with
  | some x, some y => x ≤ y
  | _, _ => false

def lt (a b : Binary64) : Bool :=
  match a.rank?, b.rank? with
  | some x, some y => x < y
  | _, _ => false

/-- Equal as numbers: the zeros are equal, and `nan` equals nothing. -/
def equal (a b : Binary64) : Bool :=
  match a.rank?, b.rank? with
  | some x, some y => x = y
  | _, _ => false

/-! ## Rounding -/

/-- The integer nearest to a quotient, the even one of two. -/
def roundQuotient (num den : Nat) : Nat :=
  let floor := num / den
  let rest := 2 * (num % den)
  if rest < den then floor
  else if den < rest then floor + 1
  else floor + floor % 2

/-- The exponent `k` with `2 ^ k ≤ num / den < 2 ^ (k + 1)`. -/
def leadingExponent (num den : Nat) : Int :=
  let k : Int := (num.log2 : Int) - den.log2
  if num * Nat.pow 2 (-k).toNat < den * Nat.pow 2 k.toNat then k - 1 else k

/-- The position nearest to a positive quotient, infinity when it is too large. -/
def roundPosition (num den : Nat) : Nat :=
  let q : Int := max (leadingExponent num den - 52) (-1074)
  let significand := roundQuotient (num * Nat.pow 2 (-q).toNat) (den * Nat.pow 2 q.toNat)
  min ((q + 1074).toNat * binade + significand) infinityPosition

/-- The number nearest to `m * 10 ^ e`; beyond the range without computing the power. -/
def ofDecimal (negative : Bool) (m : Nat) (e : Int) : Binary64 :=
  let size : Int := e + (Nat.toDigits 10 m).length
  signed negative <|
    if m = 0 then 0
    else if 310 < size then infinityPosition
    else if size < -330 then 0
    else roundPosition (m * Nat.pow 10 e.toNat) (Nat.pow 10 (-e).toNat)

def ofInt (i : Int) : Binary64 :=
  signed (i < 0) (if i = 0 then 0 else roundPosition i.natAbs 1)

def toInt? : Binary64 → Option Int
  | nan => none
  | signed negative position =>
    if infinityPosition ≤ position then none
    else
      let (m, q) := decode position
      let above := m * Nat.pow 2 q.toNat
      let below := Nat.pow 2 (-q).toNat
      let whole := above / below
      if above % below = 0 then some (if negative then -(whole : Int) else whole)
      else none

end Binary64

end UriRouting.Numeric

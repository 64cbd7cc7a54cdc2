/-!
Decimal integers within a range.

A sign may come first, a minus only where the range has negative numbers. Reading goes from the
left and reports the first fault: a character that is no digit, or a digit that leaves the range.
-/

namespace UriRouting.Numeric

/-! ## Digits -/

def isDigit (c : Char) : Bool := '0' ≤ c && c ≤ '9'

def digitValue (c : Char) : Nat := c.toNat - '0'.toNat

/-- The number that a row of digits stands for, continuing from `start`. -/
def ofDigits (start : Nat) (ds : List Char) : Nat :=
  ds.foldl (fun n d => 10 * n + digitValue d) start

/-! ## Reading -/

inductive IntegerFault
  | empty
  | invalidDigit
  | tooLarge
  | tooSmall
  deriving DecidableEq, Repr

def IntegerFault.message : IntegerFault → String
  | empty => "cannot parse integer from empty string"
  | invalidDigit => "invalid digit found in string"
  | tooLarge => "number too large to fit in target type"
  | tooSmall => "number too small to fit in target type"

/-- Reads digits after `n` as long as the number stays within `limit`. -/
def readMagnitude (limit : Nat) (overflow : IntegerFault) (n : Nat) :
    List Char → Except IntegerFault Nat
  | [] => .ok n
  | c :: cs =>
    if !isDigit c then .error .invalidDigit
    else if limit < 10 * n + digitValue c then .error overflow
    else readMagnitude limit overflow (10 * n + digitValue c) cs

structure IntegerRange where
  below : Nat
  highest : Nat

namespace IntegerRange

def unsigned8 : IntegerRange := ⟨0, 0xFF⟩

def unsigned32 : IntegerRange := ⟨0, 0xFFFFFFFF⟩

def unsigned64 : IntegerRange := ⟨0, 0xFFFFFFFFFFFFFFFF⟩

def signed64 : IntegerRange := ⟨0x8000000000000000, 0x7FFFFFFFFFFFFFFF⟩

def contains (r : IntegerRange) (n : Int) : Bool := -(r.below : Int) ≤ n && n ≤ r.highest

def read (r : IntegerRange) (text : String) : Except IntegerFault Int :=
  match text.toList with
  | [] => .error .empty
  | ['+'] | ['-'] => .error .invalidDigit
  | '+' :: ds => (readMagnitude r.highest .tooLarge 0 ds).map Int.ofNat
  | '-' :: ds =>
    if r.below = 0 then .error .invalidDigit
    else (readMagnitude r.below .tooSmall 0 ds).map fun n => -(n : Int)
  | ds => (readMagnitude r.highest .tooLarge 0 ds).map Int.ofNat

def read? (r : IntegerRange) (text : String) : Option Int := (r.read text).toOption

end IntegerRange

end UriRouting.Numeric

import UriRouting.Calendar.Fields
import UriRouting.Calendar.Format
import UriRouting.Numeric.Integer
/-!
Reading a text by a format.

Each item takes some of the text and may tell fields. Numbers take blanks before them and at most as
many digits as they may have; nothing may be left when the format ends.
-/

namespace UriRouting.Calendar

open Numeric Text

/-- What an item leaves: the fields told so far and the rest of the text. -/
abbrev Progress := Fields × List Char

/-! ## Numbers -/

/-- Reads one to `width` digits. The number has to fit into 64 bits. -/
def readDigits (width : Nat) (cs : List Char) : Option (Int × List Char) :=
  let ds := (cs.take width).takeWhile isDigit
  let n := ofDigits 0 ds
  if ds = [] || 0x8000000000000000 ≤ n then none else some (n, cs.drop ds.length)

namespace NumberItem

def width? : NumberItem → Option Nat
  | year | isoYear => some 4
  | quarter | weekdayFromSunday | weekdayFromMonday => some 1
  | dayOfYear => some 3
  | nanosecond => some 9
  | timestamp => none
  | _ => some 2

/-- Whether a number may have a sign, which lifts the limit on its digits. -/
def isSigned : NumberItem → Bool
  | year | isoYear => true
  | _ => false

def range : NumberItem → Int × Int
  | year | isoYear => (-0x80000000, 0x7FFFFFFF)
  | century | yearOfCentury | isoYearOfCentury => (0, 99)
  | quarter => (1, 4)
  | month | hour12 => (1, 12)
  | day => (1, 31)
  | sundayWeek | mondayWeek => (0, 53)
  | isoWeek => (1, 53)
  | weekdayFromSunday => (0, 6)
  | weekdayFromMonday => (1, 7)
  | dayOfYear => (1, 366)
  | hour => (0, 23)
  | minute => (0, 59)
  | second => (0, 60)
  | nanosecond => (0, 999999999)
  | timestamp => (0, 0x7FFFFFFFFFFFFFFF)

def tell? (item : NumberItem) (n : Int) (f : Fields) : Option Fields :=
  if n < item.range.1 || item.range.2 < n then none
  else match item with
    | year => f.tell? .year n
    | century => f.tell? .century n
    | yearOfCentury => f.tell? .yearOfCentury n
    | isoYear => f.tell? .isoYear n
    | isoYearOfCentury => f.tell? .isoYearOfCentury n
    | quarter => f.tell? .quarter n
    | month => f.tell? .month n
    | day => f.tell? .day n
    | sundayWeek => f.tell? .sundayWeek n
    | mondayWeek => f.tell? .mondayWeek n
    | isoWeek => f.tell? .isoWeek n
    | weekdayFromSunday => f.tell? .weekday ((n + 6) % 7)
    | weekdayFromMonday => f.tell? .weekday (n - 1)
    | dayOfYear => f.tell? .dayOfYear n
    | hour => f.tellHour? n
    | hour12 => f.tell? .hourOfHalf (n % 12)
    | minute => f.tell? .minute n
    | second => f.tell? .second n
    | nanosecond => f.tell? .nanosecond n
    | timestamp => f.tell? .timestamp n

def read? (item : NumberItem) (f : Fields) (cs : List Char) : Option Progress := do
  let cs := cs.dropWhile isBlank
  let (n, rest) ← match item.isSigned, cs with
    | true, '-' :: cs => (readDigits cs.length cs).map fun (n, rest) => (-n, rest)
    | true, '+' :: cs => readDigits cs.length cs
    | _, cs => readDigits (item.width?.getD cs.length) cs
  return (← item.tell? n f, rest)

end NumberItem

/-! ## Names -/

def monthNames : List String :=
  ["january", "february", "march", "april", "may", "june", "july", "august", "september",
    "october", "november", "december"]

def weekdayNames : List String :=
  ["monday", "tuesday", "wednesday", "thursday", "friday", "saturday", "sunday"]

/-- Whether a text begins with lower-case letters, whatever its own case. -/
def beginsWith (letters cs : List Char) : Bool :=
  (cs.take letters.length).map Char.toLower = letters

/-- Reads the first three letters of a name and, with `long`, the others if they follow. Gives the
place of the name in the list. -/
def readName (names : List String) (long : Bool) (cs : List Char) : Option (Int × List Char) :=
  match names.findIdx? fun name => beginsWith (name.toList.take 3) cs with
  | none => none
  | some i =>
    let others := (names[i]?.getD "").toList.drop 3
    let rest := cs.drop 3
    some (i, if long && beginsWith others rest then rest.drop others.length else rest)

/-! ## Other items -/

def readFraction (cs : List Char) : Option (Int × List Char) :=
  (readDigits 9 cs).map fun (n, rest) =>
    (n * Nat.pow 10 (9 - (cs.length - rest.length)), rest.dropWhile isDigit)

def readFixedFraction (digits : Nat) (cs : List Char) : Option (Int × List Char) :=
  (readDigits digits cs).bind fun (n, rest) =>
    if cs.length - rest.length = digits then some (n * Nat.pow 10 (9 - digits), rest) else none

def readTwoDigits : List Char → Option (Nat × List Char)
  | a :: b :: rest =>
    if isDigit a && isDigit b then some (10 * digitValue a + digitValue b, rest) else none
  | _ => none

def readOffset (zulu short : Bool) (cs : List Char) : Option (Int × List Char) := do
  match zulu, cs with
  | true, 'Z' :: rest | true, 'z' :: rest => return (0, rest)
  | _, sign :: cs =>
    if sign ≠ '+' && sign ≠ '-' && sign ≠ '−' then failure
    let (hours, rest) ← readTwoDigits cs
    let (minutes, rest) ← match rest.dropWhile fun c => c = ':' || isBlank c with
      | [] => if short then some (0, []) else none
      | rest => readTwoDigits rest
    if 60 ≤ minutes then failure
    let seconds : Int := hours * 3600 + minutes * 60
    return (if sign = '+' then seconds else -seconds, rest)
  | _, [] => failure

namespace FormatItem

def read? (item : FormatItem) (f : Fields) (cs : List Char) : Option Progress :=
  match item, cs with
  | literal c, d :: rest => if c = d then some (f, rest) else none
  | literal _, [] => none
  | blanks, cs => some (f, cs.dropWhile isBlank)
  | number n, cs => n.read? f cs
  | monthName long, cs => do
    let (i, rest) ← readName monthNames long cs
    return (← f.tell? .month (i + 1), rest)
  | weekdayName long, cs => do
    let (i, rest) ← readName weekdayNames long cs
    return (← f.tell? .weekday i, rest)
  | halfDay, cs =>
    if beginsWith ['a', 'm'] cs then (f.tell? .half 0).map (·, cs.drop 2)
    else if beginsWith ['p', 'm'] cs then (f.tell? .half 1).map (·, cs.drop 2)
    else none
  | pointFraction digits?, '.' :: cs => do
    let (n, rest) ← match digits? with
      | some digits => readFixedFraction digits cs
      | none => readFraction cs
    return (← f.tell? .nanosecond n, rest)
  | pointFraction _, cs => some (f, cs)
  | fraction digits, cs => do
    let (n, rest) ← readFixedFraction digits cs
    return (← f.tell? .nanosecond n, rest)
  | zoneName, cs => some (f, cs.dropWhile (!isBlank ·))
  | offset zulu short, cs => do
    let (n, rest) ← readOffset zulu short (cs.dropWhile isBlank)
    return (← f.tell? .offset n, rest)
  | dateEnd, c :: rest => if c = 'T' || c = 't' || c = ' ' then some (f, rest) else none
  | dateEnd, [] => none
  | universalOffset, cs => do
    let (n, rest) ← if beginsWith ['u', 't', 'c'] cs then some (0, cs.drop 3)
      else readOffset true false cs
    return (← f.tell? .offset n, rest)

end FormatItem

/-! ## Texts -/

def readFields? (items : List FormatItem) (text : String) : Option Fields :=
  let step (p : Progress) (item : FormatItem) : Option Progress := item.read? p.1 p.2
  match items.foldlM step (⟨[]⟩, text.toList) with
  | some (f, []) => some f
  | _ => none

def isDate (format text : String) : Bool :=
  match FormatItem.parse? format.toList with
  | none => false
  | some items => (readFields? items text).any fun f => f.hasDateTime || f.hasDate

end UriRouting.Calendar

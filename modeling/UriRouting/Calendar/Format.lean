import UriRouting.Numeric.Integer
import UriRouting.Text.Category
/-!
Formats of dates and times.

A format is plain text with items that start with a percent sign. Blanks stand for any number of
blanks, other text for itself. Some items are short for a row of others.
-/

namespace UriRouting.Calendar

open Numeric Text

inductive NumberItem
  | year | century | yearOfCentury
  | isoYear | isoYearOfCentury
  | quarter | month | day
  | sundayWeek | mondayWeek | isoWeek
  | weekdayFromSunday | weekdayFromMonday
  | dayOfYear
  | hour | hour12 | minute | second | nanosecond
  | timestamp
  deriving DecidableEq, Repr

inductive FormatItem
  | literal (c : Char)
  | blanks
  | number (n : NumberItem)
  | monthName (long : Bool)
  | weekdayName (long : Bool)
  | halfDay
  /-- A point and the fraction of a second, or nothing. The number of digits may be fixed. -/
  | pointFraction (digits? : Option Nat)
  | fraction (digits : Nat)
  | zoneName
  /-- The distance from universal time. With `zulu` the letter Z stands for none, with `short` the
  minutes may be missing. -/
  | offset (zulu short : Bool)
  /-- What separates a date from a time in `%+`. -/
  | dateEnd
  /-- The distance from universal time in `%+`, which may be the name of universal time. -/
  | universalOffset
  deriving DecidableEq, Repr

namespace FormatItem

def numberItem? : Char → Option NumberItem
  | 'C' => some .century
  | 'G' => some .isoYear
  | 'H' | 'k' => some .hour
  | 'I' | 'l' => some .hour12
  | 'M' => some .minute
  | 'S' => some .second
  | 'U' => some .sundayWeek
  | 'V' => some .isoWeek
  | 'W' => some .mondayWeek
  | 'Y' => some .year
  | 'd' | 'e' => some .day
  | 'f' => some .nanosecond
  | 'g' => some .isoYearOfCentury
  | 'j' => some .dayOfYear
  | 'm' => some .month
  | 'q' => some .quarter
  | 's' => some .timestamp
  | 'u' => some .weekdayFromMonday
  | 'w' => some .weekdayFromSunday
  | 'y' => some .yearOfCentury
  | _ => none

def shortDate : List FormatItem :=
  [number .month, literal '/', number .day, literal '/', number .yearOfCentury]

def hourMinute : List FormatItem := [number .hour, literal ':', number .minute]

def clock : List FormatItem := hourMinute ++ [literal ':', number .second]

def timestamp : List FormatItem :=
  [number .year, blanks, literal '-', number .month, blanks, literal '-', number .day, dateEnd,
    number .hour, blanks, literal ':', number .minute, blanks, literal ':', number .second,
    pointFraction none, blanks, universalOffset]

def items? : Char → Option (List FormatItem)
  | 'A' => some [weekdayName true]
  | 'B' => some [monthName true]
  | 'D' | 'x' => some shortDate
  | 'F' => some [number .year, literal '-', number .month, literal '-', number .day]
  | 'P' | 'p' => some [halfDay]
  | 'R' => some hourMinute
  | 'T' | 'X' => some clock
  | 'Z' => some [zoneName]
  | 'a' => some [weekdayName false]
  | 'b' | 'h' => some [monthName false]
  | 'c' => some ([weekdayName false, blanks, monthName false, blanks, number .day, blanks] ++ clock
      ++ [blanks, number .year])
  | 'n' | 't' => some [blanks]
  | 'r' => some [number .hour12, literal ':', number .minute, literal ':', number .second, blanks,
      halfDay]
  | 'v' => some [number .day, literal '-', monthName false, literal '-', number .year]
  | 'z' => some [offset false false]
  | '+' => some timestamp
  | '%' => some [literal '%']
  | c => (numberItem? c).map fun n => [number n]

/-- Reads a format. There is none when an item is not known or not complete. -/
def parse? : List Char → Option (List FormatItem)
  | [] => some []
  | '%' :: ':' :: ':' :: ':' :: 'z' :: rest => (offset false false :: ·) <$> parse? rest
  | '%' :: ':' :: ':' :: 'z' :: rest => (offset false false :: ·) <$> parse? rest
  | '%' :: ':' :: 'z' :: rest => (offset false false :: ·) <$> parse? rest
  | '%' :: '.' :: 'f' :: rest => (pointFraction none :: ·) <$> parse? rest
  | '%' :: '.' :: d :: 'f' :: rest =>
    if d = '3' || d = '6' || d = '9' then (pointFraction (digitValue d) :: ·) <$> parse? rest
    else none
  | '%' :: '3' :: 'f' :: rest => (fraction 3 :: ·) <$> parse? rest
  | '%' :: '6' :: 'f' :: rest => (fraction 6 :: ·) <$> parse? rest
  | '%' :: '9' :: 'f' :: rest => (fraction 9 :: ·) <$> parse? rest
  | '%' :: '#' :: 'z' :: rest => (offset true true :: ·) <$> parse? rest
  | '%' :: '-' :: c :: rest | '%' :: '0' :: c :: rest | '%' :: '_' :: c :: rest =>
    (numberItem? c).bind fun n => (number n :: ·) <$> parse? rest
  | '%' :: c :: rest => (items? c).bind fun is => (is ++ ·) <$> parse? rest
  | ['%'] => none
  | c :: rest => ((if isBlank c then blanks else literal c) :: ·) <$> parse? rest

end FormatItem

end UriRouting.Calendar

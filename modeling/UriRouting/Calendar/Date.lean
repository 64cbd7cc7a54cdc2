/-!
Dates of the Gregorian calendar, extended to all years.

A date is a year and a day of that year. Days are numbered from the first of January of year one,
which is a Monday, so a weekday is a day number modulo seven.
-/

namespace UriRouting.Calendar

/-! ## Years -/

def isLeap (year : Int) : Bool := year % 4 = 0 && (year % 100 ≠ 0 || year % 400 = 0)

def daysInYear (year : Int) : Int := if isLeap year then 366 else 365

def dayBeforeYear (year : Int) : Int :=
  let y := year - 1
  365 * y + y / 4 - y / 100 + y / 400 - 1

def firstYear : Int := -262143

def lastYear : Int := 262142

def monthLengths (year : Int) : List Int :=
  [31, if isLeap year then 29 else 28, 31, 30, 31, 30, 31, 31, 30, 31, 30, 31]

/-! ## Dates -/

/-- A date: a year and the day in it, counted from one. -/
structure Date where
  year : Int
  dayOfYear : Int
  deriving DecidableEq, Repr

namespace Date

def ofDayOfYear? (year day : Int) : Option Date :=
  if firstYear ≤ year && year ≤ lastYear && 1 ≤ day && day ≤ daysInYear year then some ⟨year, day⟩
  else none

def ofMonthDay? (year month day : Int) : Option Date :=
  let before := (monthLengths year).take (month - 1).toNat
  match (monthLengths year)[(month - 1).toNat]? with
  | some length =>
    if 1 ≤ month && 1 ≤ day && day ≤ length then
      ofDayOfYear? year (before.foldl (· + ·) 0 + day)
    else none
  | none => none

/-- The date of a day counted from the first of January of `year`, in the years around it. -/
def ofNearbyDay? (year day : Int) : Option Date :=
  if day < 1 then ofDayOfYear? (year - 1) (day + daysInYear (year - 1))
  else if daysInYear year < day then ofDayOfYear? (year + 1) (day - daysInYear year)
  else ofDayOfYear? year day

def dayNumber (d : Date) : Int := dayBeforeYear d.year + d.dayOfYear

/-- The date of a day number, by whole cycles of 400, 100, four and single years. -/
def ofDayNumber? (n : Int) : Option Date :=
  let cycle := n / 146097
  let r := n % 146097
  let century := min (r / 36524) 3
  let r := r - century * 36524
  let four := r / 1461
  let r := r - four * 1461
  let one := min (r / 365) 3
  ofDayOfYear? (400 * cycle + 100 * century + 4 * four + one + 1) (r - one * 365 + 1)

def weekday (d : Date) : Int := d.dayNumber % 7

/-- How the day of a year falls into months: the month and the day in it. -/
def splitMonths (month : Int) (day : Int) : List Int → Int × Int
  | [] => (month, day)
  | length :: rest => if day ≤ length then (month, day) else splitMonths (month + 1) (day - length) rest

def monthDay (d : Date) : Int × Int := splitMonths 1 d.dayOfYear (monthLengths d.year)

/-- The number of the week, when weeks begin on the weekday `start` and the days before the first
such day are week zero. -/
def weekFrom (d : Date) (start : Int) : Int := (d.dayOfYear - (d.weekday - start) % 7 + 6) / 7

/-- The year and number of the week that begins on Monday and belongs to the year of its
Thursday. -/
def isoWeek (d : Date) : Int × Int :=
  let thursday := d.dayOfYear - d.weekday + 3
  if thursday < 1 then (d.year - 1, (thursday + daysInYear (d.year - 1) - 1) / 7 + 1)
  else if daysInYear d.year < thursday then (d.year + 1, 1)
  else (d.year, (thursday - 1) / 7 + 1)

/-- The date of a weekday in a week counted as in `weekFrom`. -/
def ofWeekFrom? (year week weekday start : Int) : Option Date :=
  let firstWeekday := (dayBeforeYear year + 1) % 7
  let firstStart := 1 + (start - firstWeekday) % 7
  ofDayOfYear? year (firstStart + (week - 1) * 7 + (weekday - start) % 7)

def ofIsoWeek? (year week weekday : Int) : Option Date :=
  let monday := 4 - (dayBeforeYear year + 4) % 7 + 7 * (week - 1)
  if week < 1 || daysInYear year < monday + 3 then none else ofNearbyDay? year (monday + weekday)

end Date

end UriRouting.Calendar

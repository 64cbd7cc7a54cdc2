import UriRouting.Calendar.Date
/-!
What a text tells about a date and a time, and the date and time that follow from it.

Each field is told once or agrees with what was told before. A date follows from the first of several
sets of fields that is complete, and has to agree with all others.
-/

namespace UriRouting.Calendar

/-! ## Fields -/

inductive DateField
  | year | century | yearOfCentury
  | isoYear | isoCentury | isoYearOfCentury
  | quarter | month | day
  | sundayWeek | mondayWeek | isoWeek
  /-- Counted from Monday as zero. -/
  | weekday
  | dayOfYear
  /-- Zero in the morning, one in the afternoon. -/
  | half
  | hourOfHalf | minute | second | nanosecond
  | timestamp
  /-- Seconds ahead of universal time. -/
  | offset
  deriving DecidableEq, Repr

/-- The values of the fields that have been told. -/
structure Fields where
  values : List (DateField × Int)
  deriving Repr

namespace Fields

def get? (f : Fields) (field : DateField) : Option Int := f.values.lookup field

/-- Tells a field. It fails when the field has another value. -/
def tell? (f : Fields) (field : DateField) (value : Int) : Option Fields :=
  match f.get? field with
  | some v => if v = value then some f else none
  | none => some ⟨(field, value) :: f.values⟩

def agrees (f : Fields) (field : DateField) (value : Int) : Bool := (f.get? field).all (· = value)

def tellHour? (f : Fields) (hour : Int) : Option Fields :=
  (f.tell? .half (hour / 12)).bind fun f => f.tell? .hourOfHalf (hour % 12)

/-! ## Dates -/

inductive Gap
  | missing
  | contradiction
  deriving DecidableEq, Repr

/-- The year, from itself or from a century and a year of the century. A year of the century alone
belongs to 1970 and the hundred years from there. -/
def resolveYear (y? q? r? : Option Int) : Except Gap (Option Int) :=
  match y?, q?, r? with
  | y, none, none => .ok y
  | some y, q, r =>
    if 0 ≤ y && q.all (· = y / 100) && r.all (· = y % 100) then .ok (some y)
    else .error .contradiction
  | none, some q, some r => .ok (some (100 * q + r))
  | none, none, some r => .ok (some (if r < 70 then 2000 + r else 1900 + r))
  | none, some _, none => .error .missing

/-- Whether century and year of the century agree with a year. Years before zero have none. -/
def agreesCentury (f : Fields) (q r : DateField) (y : Int) : Bool :=
  if 0 ≤ y then f.agrees q (y / 100) && f.agrees r (y % 100)
  else (f.get? q).isNone && (f.get? r).isNone

def agreesMonthDay (f : Fields) (d : Date) : Bool :=
  f.agrees .year d.year && f.agreesCentury .century .yearOfCentury d.year
    && f.agrees .month d.monthDay.1 && f.agrees .day d.monthDay.2

def agreesIsoWeek (f : Fields) (d : Date) : Bool :=
  f.agrees .isoYear d.isoWeek.1 && f.agreesCentury .isoCentury .isoYearOfCentury d.isoWeek.1
    && f.agrees .isoWeek d.isoWeek.2 && f.agrees .weekday d.weekday

/-- Whether a date agrees with the day of the year and the other weeks. -/
def agreesDayOfYear (f : Fields) (d : Date) : Bool :=
  f.agrees .dayOfYear d.dayOfYear && f.agrees .sundayWeek (d.weekFrom 6)
    && f.agrees .mondayWeek (d.weekFrom 0)

def check (f : Fields) (date : Option Date) (agree : Date → Bool) : Except Gap Date :=
  match date with
  | some d =>
    if agree d && f.agrees .quarter ((d.monthDay.1 - 1) / 3 + 1) then .ok d
    else .error .contradiction
  | none => .error .contradiction

def date (f : Fields) : Except Gap Date := do
  let year ← resolveYear (f.get? .year) (f.get? .century) (f.get? .yearOfCentury)
  let isoYear ← resolveYear (f.get? .isoYear) (f.get? .isoCentury) (f.get? .isoYearOfCentury)
  let all (d : Date) : Bool := f.agreesMonthDay d && f.agreesIsoWeek d && f.agreesDayOfYear d
  match year, f.get? .month, f.get? .day with
  | some y, some m, some d =>
    f.check (Date.ofMonthDay? y m d) fun d => f.agreesIsoWeek d && f.agreesDayOfYear d
  | _, _, _ =>
  match year, f.get? .dayOfYear with
  | some y, some d => f.check (Date.ofDayOfYear? y d) all
  | _, _ =>
  match year, f.get? .sundayWeek, f.get? .weekday with
  | some y, some w, some d => f.check (Date.ofWeekFrom? y w d 6) all
  | _, _, _ =>
  match year, f.get? .mondayWeek, f.get? .weekday with
  | some y, some w, some d => f.check (Date.ofWeekFrom? y w d 0) all
  | _, _, _ =>
  match isoYear, f.get? .isoWeek, f.get? .weekday with
  | some y, some w, some d =>
    f.check (Date.ofIsoWeek? y w d) fun d => f.agreesMonthDay d && f.agreesDayOfYear d
  | _, _, _ => .error .missing

/-! ## Times -/

/-- The second of the day, and whether it is a leap second, which counts as the one before. The
second may be missing, but a fraction needs it. -/
def time (f : Fields) : Except Gap (Int × Bool) :=
  match f.get? .half, f.get? .hourOfHalf, f.get? .minute with
  | some half, some hour, some minute =>
    if (f.get? .nanosecond).isSome && (f.get? .second).isNone then .error .missing
    else
      let second := (f.get? .second).getD 0
      .ok ((half * 12 + hour) * 3600 + minute * 60 + min second 59, second = 60)
  | _, _, _ => .error .missing

/-! ## Dates with times -/

def epochDay : Int := 719162

def agreesTimestamp (f : Fields) (d : Date) (second : Int) (leap : Bool) : Bool :=
  let t := (d.dayNumber - epochDay) * 86400 + second
  (f.get? .timestamp).all fun given => given = t || (leap && given = t + 1)

def withTimestamp? (f : Fields) (timestamp : Int) : Option Fields := do
  let leap := f.get? .second = some 60
  let _ ← Date.ofDayNumber? (timestamp / 86400 + epochDay)
  if leap && timestamp % 60 ≠ 59 && timestamp % 60 ≠ 0 then failure
  let t := if leap && timestamp % 60 = 0 then timestamp - 1 else timestamp
  let d ← Date.ofDayNumber? (t / 86400 + epochDay)
  let second := t % 86400
  let f ← if leap then some f else f.tell? .second (second % 60)
  let f ← f.tell? .year d.year
  let f ← f.tell? .dayOfYear d.dayOfYear
  let f ← f.tellHour? (second / 3600)
  f.tell? .minute (second / 60 % 60)

/-- Whether a date with a time follows from the fields. A timestamp stands in for fields that are
missing. -/
def hasDateTime (f : Fields) : Bool :=
  match f.date, f.time, f.get? .timestamp with
  | .ok d, .ok (second, leap), _ => f.agreesTimestamp d second leap
  | .error .contradiction, _, _ | _, .error .contradiction, _ => false
  | _, _, some t =>
    match f.withTimestamp? t with
    | some f => f.date.isOk && f.time.isOk
    | none => false
  | _, _, none => false

def hasDate (f : Fields) : Bool := f.date.isOk

end Fields

end UriRouting.Calendar

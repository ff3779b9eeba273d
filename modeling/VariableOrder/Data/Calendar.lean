/-!
# Days and moments

Dates of the proleptic calendar, with and without a time of day. A date or a time that does
not exist is refused with a reason; what exists is written in the order year to second, and
a moment with an offset from the universal time shows it.
-/

set_option autoImplicit false

namespace VariableOrder.Data

/-- A day of the calendar. -/
structure Date where
  year : Nat
  month : Nat
  day : Nat
  deriving DecidableEq, Repr

/-- A time of a day, with the offset from universal time in minutes where one is given. -/
structure Moment where
  date : Date
  hour : Nat
  minute : Nat
  second : Nat
  micro : Nat
  offset : Option Int
  deriving DecidableEq, Repr

/-- Why numbers do not name a day or a time. -/
inductive CalendarFault where
  | year (year : Nat)
  | month
  | day
  | hour
  | minute
  | second
  | offset (minutes : Int)
  deriving DecidableEq, Repr

/-- Whether February has a 29th day. -/
def isLeap (year : Nat) : Bool :=
  year % 4 = 0 && (year % 100 != 0 || year % 400 = 0)

/-- The count of days of a month. -/
def daysIn (year month : Nat) : Nat :=
  if month = 2 then (if isLeap year then 29 else 28)
  else if month = 4 || month = 6 || month = 9 || month = 11 then 30
  else 31

/-- The day with the given numbers; year, month and day are looked at in this order. -/
def Date.make (year month day : Nat) : Except CalendarFault Date :=
  if year < 1 || 9999 < year then .error (.year year)
  else if month < 1 || 12 < month then .error .month
  else if day < 1 || daysIn year month < day then .error .day
  else .ok ⟨year, month, day⟩

/-- The fault of an offset that is not less than a day. -/
def offsetFault? (offset : Option Int) : Option CalendarFault :=
  match offset with
  | some m => if m ≤ -1440 || 1440 ≤ m then some (.offset m) else none
  | none => none

/-- The moment with the given numbers. The offset is looked at first and has to be less than a
day; then come the day, the hour, the minute and the second. -/
def Moment.make (year month day hour minute second micro : Nat) (offset : Option Int) :
    Except CalendarFault Moment :=
  match offsetFault? offset with
  | some fault => .error fault
  | none => do
    let date ← Date.make year month day
    if 23 < hour then .error .hour
    else if 59 < minute then .error .minute
    else if 59 < second then .error .second
    else .ok ⟨date, hour, minute, second, micro, offset⟩

/-- A number with zeros in front up to the given count of digits. -/
def zeroPadded (width n : Nat) : String :=
  let digits := Nat.toDigits 10 n
  String.ofList (List.replicate (width - digits.length) '0' ++ digits)

/-- The text of a day: year, month and day with dashes. -/
def Date.text (d : Date) : String :=
  zeroPadded 4 d.year ++ "-" ++ zeroPadded 2 d.month ++ "-" ++ zeroPadded 2 d.day

/-- The text of an offset: a sign, hours and minutes. -/
def offsetText (minutes : Int) : String :=
  let n := minutes.natAbs
  (if minutes < 0 then "-" else "+") ++ zeroPadded 2 (n / 60) ++ ":" ++ zeroPadded 2 (n % 60)

/-- The text of a moment; microseconds and offset appear only where there are some. -/
def Moment.text (m : Moment) : String :=
  m.date.text ++ " " ++ zeroPadded 2 m.hour ++ ":" ++ zeroPadded 2 m.minute ++ ":"
    ++ zeroPadded 2 m.second
    ++ (if m.micro = 0 then "" else "." ++ zeroPadded 6 m.micro)
    ++ (match m.offset with
        | some minutes => offsetText minutes
        | none => "")

/-- The written form of a span of time of at most a day, in days and seconds. -/
def spanLiteral (minutes : Int) : String :=
  let days := minutes.fdiv 1440
  let seconds := minutes.fmod 1440 * 60
  let parts :=
    (if days = 0 then [] else ["days=" ++ toString days])
      ++ (if seconds = 0 then [] else ["seconds=" ++ toString seconds])
  "datetime.timedelta(" ++ (if parts.isEmpty then "0" else String.intercalate ", " parts) ++ ")"

/-- The wording of a fault. -/
def CalendarFault.message : CalendarFault → String
  | .year y => "year " ++ toString y ++ " is out of range"
  | .month => "month must be in 1..12"
  | .day => "day is out of range for month"
  | .hour => "hour must be in 0..23"
  | .minute => "minute must be in 0..59"
  | .second => "second must be in 0..59"
  | .offset m =>
    "offset must be a timedelta strictly between -timedelta(hours=24) and timedelta(hours=24), not "
      ++ spanLiteral m ++ "."

/-- The written form of a day inside a message. -/
def Date.literal (d : Date) : String :=
  "datetime.date(" ++ toString d.year ++ ", " ++ toString d.month ++ ", " ++ toString d.day ++ ")"

/-- The written form of an offset inside a message. -/
def offsetLiteral (minutes : Int) : String :=
  if minutes = 0 then "datetime.timezone.utc"
  else "datetime.timezone(" ++ spanLiteral minutes ++ ")"

/-- The written form of a moment inside a message; seconds and microseconds appear only as far as
they are needed. -/
def Moment.literal (m : Moment) : String :=
  let head := [m.date.year, m.date.month, m.date.day, m.hour, m.minute]
  let tail :=
    if m.micro != 0 then [m.second, m.micro]
    else if m.second != 0 then [m.second]
    else []
  let offset :=
    match m.offset with
    | some minutes => ["tzinfo=" ++ offsetLiteral minutes]
    | none => []
  "datetime.datetime("
    ++ String.intercalate ", " ((head ++ tail).map (fun n => toString n) ++ offset) ++ ")"

/-- The count of days from the first day of the calendar to the first day of a year. -/
def daysBeforeYear (year : Nat) : Nat :=
  let past := year - 1
  past * 365 + past / 4 - past / 100 + past / 400

/-- The minute of a moment in universal time, counted from the first day of the calendar. -/
def Moment.universalMinute (m : Moment) : Int :=
  let months := (List.range (m.date.month - 1)).map fun i => daysIn m.date.year (i + 1)
  let days := daysBeforeYear m.date.year + months.foldl (· + ·) 0 + m.date.day
  ((days * 1440 + m.hour * 60 + m.minute : Nat) : Int) - m.offset.getD 0

/-- Whether two moments are the same one: both with an offset, or both without. -/
def Moment.same (a b : Moment) : Bool :=
  a.offset.isSome == b.offset.isSome && a.universalMinute == b.universalMinute
    && a.second == b.second && a.micro == b.micro

end VariableOrder.Data

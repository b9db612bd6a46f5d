import EnvFiles.Data.Fault

/-!
# Dates and times

A date is a day of the calendar in the years one to 9999, a clock time a time of day to the
millionth of a second, a moment a date with a clock time and, perhaps, an offset from universal
time. Two moments with offsets are the same when they are the same instant.
-/

namespace EnvFiles

/-- A day of the calendar. -/
structure Date where
  year : Nat
  month : Nat
  day : Nat
  deriving DecidableEq, Repr, Inhabited

/-- A time of day. -/
structure ClockTime where
  hour : Nat
  minute : Nat
  second : Nat
  micro : Nat
  deriving DecidableEq, Repr, Inhabited

/-- A date with a time of day; the offset from universal time is in minutes. -/
structure Moment where
  date : Date
  time : ClockTime
  offset : Option Int
  deriving DecidableEq, Repr, Inhabited

/-- Whether a year has 366 days. -/
def isLeapYear (year : Nat) : Bool := year % 4 == 0 && (year % 100 != 0 || year % 400 == 0)

/-- The number of days of a month. -/
def daysInMonth (year month : Nat) : Nat :=
  if month = 2 then if isLeapYear year then 29 else 28
  else if [4, 6, 9, 11].contains month then 30
  else 31

/-- The date with the given parts, if there is one. -/
def Date.of (year month day : Nat) : Except ValueFault Date :=
  if year < 1 ∨ 9999 < year then .error (.yearOutOfRange year)
  else if month < 1 ∨ 12 < month then .error .monthOutOfRange
  else if day < 1 ∨ daysInMonth year month < day then .error .dayOutOfRange
  else .ok ⟨year, month, day⟩

/-- The time of day with the given parts, if there is one. -/
def ClockTime.of (hour minute second micro : Nat) : Except ValueFault ClockTime :=
  if 23 < hour then .error .hourOutOfRange
  else if 59 < minute then .error .minuteOutOfRange
  else if 59 < second then .error .secondOutOfRange
  else .ok ⟨hour, minute, second, micro⟩

/-- An offset in minutes, if it is less than a day. -/
def offsetOf (minutes : Int) : Except ValueFault Int :=
  if minutes.natAbs < 1440 then .ok minutes else .error (.offsetOutOfRange minutes)

/-- The digits of a number, with zeros before them up to the given width. -/
def padded (width n : Nat) : Text :=
  let digits := Text.ofNat n
  List.replicate (width - digits.length) '0' ++ digits

namespace Date

/-- The year, month and day with dashes between them. -/
def shown (date : Date) : Text :=
  padded 4 date.year ++ "-" ++ padded 2 date.month ++ "-" ++ padded 2 date.day

/-- The numbers of a date. -/
def parts (date : Date) : List Nat := [date.year, date.month, date.day]

/-- The number of days before a date, from the first day of year one on. -/
def daysBefore (date : Date) : Nat :=
  let years := date.year - 1
  let months := (List.range (date.month - 1)).map fun m => daysInMonth date.year (m + 1)
  365 * years + years / 4 - years / 100 + years / 400 + months.foldl (· + ·) 0 + (date.day - 1)

end Date

namespace ClockTime

/-- The hours, minutes and seconds with colons between them, and the millionths if there are
any. -/
def shown (time : ClockTime) : Text :=
  padded 2 time.hour ++ ":" ++ padded 2 time.minute ++ ":" ++ padded 2 time.second ++
    (if time.micro = 0 then [] else '.' :: padded 6 time.micro)

/-- The numbers of a time; zeros at the end count only for hours and minutes. -/
def parts (time : ClockTime) : List Nat :=
  [time.hour, time.minute] ++
    (if time.second = 0 ∧ time.micro = 0 then [] else [time.second]) ++
    (if time.micro = 0 then [] else [time.micro])

/-- The time in millionths of a second. -/
def inMicros (time : ClockTime) : Nat :=
  ((time.hour * 60 + time.minute) * 60 + time.second) * 1000000 + time.micro

end ClockTime

namespace Moment

/-- An offset with its sign, hours and minutes. -/
def offsetText (minutes : Int) : Text :=
  (if minutes < 0 then '-' else '+') ::
    (padded 2 (minutes.natAbs / 60) ++ ":" ++ padded 2 (minutes.natAbs % 60))

/-- The date and the time with a character between them, and the offset if there is one. -/
def joined (between : Char) (moment : Moment) : Text :=
  moment.date.shown ++ (between :: moment.time.shown)

/-- The text of a moment, with a space between date and time. -/
def shown (moment : Moment) : Text :=
  moment.joined ' ' ++ (moment.offset.map offsetText).getD []

/-- The text of a moment in an exchange format: a letter between date and time, and a letter for
universal time. -/
def exchanged (moment : Moment) : Text :=
  moment.joined 'T' ++
    match moment.offset with
    | none => []
    | some 0 => ['Z']
    | some minutes => offsetText minutes

/-- The instant of a moment with an offset, in millionths of a second. -/
def instant (moment : Moment) (offset : Int) : Int :=
  (moment.date.daysBefore : Int) * 86400000000 + moment.time.inMicros - offset * 60000000

/-- Whether two moments are the same. One with an offset is not the same as one without. -/
def same (a b : Moment) : Bool :=
  match a.offset, b.offset with
  | none, none => a == b
  | some m, some n => a.instant m == b.instant n
  | _, _ => false

end Moment
end EnvFiles

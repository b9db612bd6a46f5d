import EnvFiles.Data.Basic

/-!
# TOML dates and times

A date is written with dashes, a time with colons, both with a fixed number of digits. A letter or
a space stands between a date and its time, and an offset from universal time can follow. A date
that is not in the calendar is refused like one that is not well written.
-/

namespace EnvFiles.Toml

/-- Two digits as a number of the given range. -/
def twoDigits? (least most : Nat) : Text → Option (Nat × Text)
  | a :: b :: rest =>
    let n := Fraction.naturalOf [a, b]
    if a.isDigit && b.isDigit && least ≤ n && n ≤ most then some (n, rest) else none
  | _ => none

/-- The text after a character. -/
def after? (mark : Char) : Text → Option Text
  | c :: rest => if c = mark then some rest else none
  | [] => none

/-- The millionths of a second after a point, if there are any; further digits are dropped. -/
def micros (text : Text) : Nat × Text :=
  match text with
  | '.' :: rest =>
    let digits := rest.takeWhile Char.isDigit
    if digits.isEmpty then (0, text)
    else (Fraction.naturalOf (digits.take 6) * Nat.pow 10 (6 - digits.length),
      rest.dropWhile Char.isDigit)
  | _ => (0, text)

/-- A time of day at the start of a text. -/
def clockTime? (text : Text) : Option (ClockTime × Text) := do
  let (hour, rest) ← twoDigits? 0 23 text
  let (minute, rest) ← twoDigits? 0 59 (← after? ':' rest)
  let (second, rest) ← twoDigits? 0 59 (← after? ':' rest)
  let (micro, rest) := micros rest
  return (⟨hour, minute, second, micro⟩, rest)

/-- An offset from universal time, in minutes. -/
def offset? : Text → Option (Int × Text)
  | [] => none
  | c :: rest =>
    if c = 'Z' ∨ c = 'z' then some (0, rest)
    else if c = '+' ∨ c = '-' then do
      let (hours, rest) ← twoDigits? 0 23 rest
      let (minutes, rest) ← twoDigits? 0 59 (← after? ':' rest)
      let total : Int := 60 * hours + minutes
      return (if c = '-' then -total else total, rest)
    else none

/-- The numbers of a date at the start of a text. -/
def dateParts? (text : Text) : Option (Nat × Nat × Nat × Text) := do
  let (century, rest) ← twoDigits? 0 99 text
  let (year, rest) ← twoDigits? 0 99 rest
  let (month, rest) ← twoDigits? 1 12 (← after? '-' rest)
  let (day, rest) ← twoDigits? 1 31 (← after? '-' rest)
  return (100 * century + year, month, day, rest)

/-- The time after a date. -/
def timeAfter? : Text → Option (ClockTime × Text)
  | [] => none
  | c :: rest => if c = 'T' ∨ c = 't' ∨ c = ' ' then clockTime? rest else none

/-- What a text starts with when it starts like a date: the date or moment. -/
def moment (year month day : Nat) (rest : Text) : Except ValueFault (Data × Text) := do
  let date ← Date.of year month day
  match timeAfter? rest with
  | none => return (.date date, rest)
  | some (time, rest) =>
    match offset? rest with
    | none => return (.moment ⟨date, time, none⟩, rest)
    | some (offset, rest) => return (.moment ⟨date, time, some offset⟩, rest)

/-- A date, a time or both at the start of a text, if it starts like one. -/
def timeValue? (text : Text) : Option (ReadResult (Data × Text)) :=
  match dateParts? text with
  | some (year, month, day, rest) =>
    some ((moment year month day rest).mapError fun _ => .malformed)
  | none => (clockTime? text).map fun (time, rest) => .ok (.time time, rest)

end EnvFiles.Toml

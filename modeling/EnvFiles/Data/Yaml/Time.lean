import EnvFiles.Data.Basic

/-!
# YAML dates and times

A date alone has two digits for month and day; before a time one digit can do. A letter or blanks
stand between a date and its time, and a zone can follow, after blanks or not. Only the first six
digits of a fraction of a second count. What is written like a date can be no day of the calendar.
-/

namespace EnvFiles.Yaml

/-- What is read from the start of a text. -/
abbrev Start (α : Type) := Option (α × Text)

/-- Exactly the given number of digits. -/
def digits? (count : Nat) (text : Text) : Start Nat :=
  let digits := text.take count
  if digits.length = count && digits.all Char.isDigit then
    some (Fraction.naturalOf digits, text.drop count)
  else none

/-- Two digits, or one if no second one follows. -/
def oneOrTwo? (text : Text) : Start Nat := (digits? 2 text).or (digits? 1 text)

/-- The text after a character. -/
def after? (mark : Char) : Text → Option Text
  | c :: rest => if c = mark then some rest else none
  | [] => none

/-- The text after spaces and tabs. -/
def skipGap (text : Text) : Text := text.dropWhile fun c => c == ' ' || c == '\t'

/-- The numbers of a date alone. -/
def dateAlone? (text : Text) : Option (Nat × Nat × Nat) := do
  let (year, rest) ← digits? 4 text
  let (month, rest) ← digits? 2 (← after? '-' rest)
  let (day, rest) ← digits? 2 (← after? '-' rest)
  if rest.isEmpty then return (year, month, day) else none

/-- What follows the mark between a date and its time. -/
def afterDate? : Text → Option Text
  | [] => none
  | c :: rest =>
    if c == 'T' || c == 't' then some rest
    else if c == ' ' || c == '\t' then some (skipGap rest)
    else none

/-- The millionths of a second after a point, which can be without digits, and the rest. -/
def micros : Text → Nat × Text
  | '.' :: rest =>
    let digits := (rest.takeWhile Char.isDigit).take 6
    (Fraction.naturalOf digits * Nat.pow 10 (6 - digits.length), rest.dropWhile Char.isDigit)
  | text => (0, text)

/-- The zone at the end of a text, as the offset in minutes: nothing, the letter for universal
time, or a sign with hours and perhaps minutes. -/
def zone? : Text → Option (Option Int)
  | [] => some none
  | text =>
    match skipGap text with
    | ['Z'] => some (some 0)
    | sign :: rest =>
      if sign == '+' || sign == '-' then do
        let (hours, rest) ← oneOrTwo? rest
        let minutes ← if rest.isEmpty then some 0 else do
          let (minutes, rest) ← digits? 2 (← after? ':' rest)
          if rest.isEmpty then some minutes else none
        let total : Int := 60 * hours + minutes
        return some (if sign == '-' then -total else total)
      else none
    | [] => none

/-- The numbers of a moment. -/
structure MomentParts where
  year : Nat
  month : Nat
  day : Nat
  hour : Nat
  minute : Nat
  second : Nat
  micro : Nat
  zone : Option Int

/-- The numbers of a date with a time. -/
def momentParts? (text : Text) : Option MomentParts := do
  let (year, rest) ← digits? 4 text
  let (month, rest) ← oneOrTwo? (← after? '-' rest)
  let (day, rest) ← oneOrTwo? (← after? '-' rest)
  let (hour, rest) ← oneOrTwo? (← afterDate? rest)
  let (minute, rest) ← digits? 2 (← after? ':' rest)
  let (second, rest) ← digits? 2 (← after? ':' rest)
  let (micro, rest) := micros rest
  let zone ← zone? rest
  return { year, month, day, hour, minute, second, micro, zone }

/-- The moment with the given numbers, if there is one; its zone is looked at first. -/
def MomentParts.value (parts : MomentParts) : Except ValueFault Moment := do
  let offset ← parts.zone.mapM offsetOf
  let date ← Date.of parts.year parts.month parts.day
  let time ← ClockTime.of parts.hour parts.minute parts.second parts.micro
  return ⟨date, time, offset⟩

/-- The date or moment that a text is written as, if it is written like one. -/
def timeValue? (text : Text) : Option (Except ValueFault Data) :=
  match dateAlone? text, momentParts? text with
  | some (year, month, day), _ => some ((Date.of year month day).map Data.date)
  | none, some parts => some (parts.value.map Data.moment)
  | none, none => none

end EnvFiles.Yaml

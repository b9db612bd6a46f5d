import EnvFiles.Text.Basic

/-!
# Why a text has no value

A text that follows its format can still give a number, a character, a moment or a path that does
not exist. Such a value is reported with its own words; a text that does not follow its format is
reported as such.
-/

namespace EnvFiles

/-- A value that a text asks for and that does not exist. -/
inductive ValueFault
  | yearOutOfRange (year : Nat)
  | monthOutOfRange
  | dayOutOfRange
  | hourOutOfRange
  | minuteOutOfRange
  | secondOutOfRange
  /-- An offset of a whole day or more, in minutes. -/
  | offsetOutOfRange (minutes : Int)
  /-- A whole number to a base without any digit. -/
  | noDigits (base : Nat)
  /-- More decimal digits than a whole number can be read from. -/
  | tooManyDigits (count : Nat)
  | noSuchCharacter
  /-- A path whose name holds the null character. -/
  | nullInPath
  deriving DecidableEq, Repr, Inhabited

/-- A number of minutes as days and as seconds of a day, without what is zero. -/
def minutesSpan (minutes : Int) : Text :=
  let days := minutes.fdiv 1440
  let seconds := (minutes.fmod 1440 * 60).toNat
  let dayPart : List Text := if days = 0 then [] else
    [("days=" : Text) ++ (if days < 0 then ['-'] else []) ++ Text.ofNat days.natAbs]
  let secondPart : List Text := if seconds = 0 then [] else [("seconds=" : Text) ++ Text.ofNat seconds]
  let parts := dayPart ++ secondPart
  "datetime.timedelta(" ++ (if parts.isEmpty then ['0'] else Text.join ", " parts) ++ ")"

/-- The wording of a fault. -/
def ValueFault.message : ValueFault → Text
  | .yearOutOfRange year => "year " ++ Text.ofNat year ++ " is out of range"
  | .monthOutOfRange => "month must be in 1..12"
  | .dayOutOfRange => "day is out of range for month"
  | .hourOutOfRange => "hour must be in 0..23"
  | .minuteOutOfRange => "minute must be in 0..59"
  | .secondOutOfRange => "second must be in 0..59"
  | .offsetOutOfRange minutes =>
    "offset must be a timedelta strictly between -timedelta(hours=24) and timedelta(hours=24), not "
      ++ minutesSpan minutes ++ "."
  | .noDigits base => "invalid literal for int() with base " ++ Text.ofNat base ++ ": ''"
  | .tooManyDigits count =>
    "Exceeds the limit (4300 digits) for integer string conversion: value has " ++
      Text.ofNat count ++ " digits; use sys.set_int_max_str_digits() to increase the limit"
  | .noSuchCharacter => "chr() arg not in range(0x110000)"
  | .nullInPath => "embedded null byte"

/-- Why a text has no value. -/
inductive ReadFault
  /-- The text does not follow its format. -/
  | malformed
  | noValue (fault : ValueFault)
  /-- A number is too large to compute with. -/
  | tooLarge
  /-- Collections lie in one another deeper than they are followed. -/
  | tooDeep
  deriving DecidableEq, Repr, Inhabited

/-- What reading a text gives. -/
abbrev ReadResult (α : Type) := Except ReadFault α

/-- A result that is missing when a text does not follow its format. -/
def ReadResult.ofOption {α : Type} : Option α → ReadResult α
  | some value => .ok value
  | none => .error .malformed

/-- The most decimal digits that a whole number is read from. -/
def digitLimit : Nat := 4300

/-- Decimal digits of a whole number, if there are not too many. -/
def withinLimit (digits : Text) : ReadResult Text :=
  if digits.length ≤ digitLimit then .ok digits
  else .error (.noValue (.tooManyDigits digits.length))

end EnvFiles

import EnvFiles.Data.Fraction.Shown
import EnvFiles.Data.Moment
import EnvFiles.Text.Codes

/-!
# Data read from configuration files

The value type of the three configuration formats. Keys of a mapping can be any data that is not
a collection, because one of the formats allows it; a mapping keeps the order of its entries and
has each key once. Texts can hold escaped surrogate halves. In one format a collection can contain itself. Such a collection has a
number, and inside it the number stands for the whole; what is taken out of it is made whole
again, so that no number is left without its collection.
-/

namespace EnvFiles

/-- A value of a configuration format. -/
inductive Data
  | null
  | bool (value : Bool)
  | int (value : Int)
  | fraction (value : Fraction)
  | date (value : Date)
  | time (value : ClockTime)
  | moment (value : Moment)
  | text (value : Text)
  /-- A text in which some number is that of no character. -/
  | halvedText (codes : Codes)
  | list (items : List Data)
  | mapping (entries : List (Data × Data))
  /-- A collection in which its number stands for itself. -/
  | cyclic (number : Nat) (body : Data)
  /-- The enclosing collection with a number, which is a mapping or a list. -/
  | again (number : Nat) (isMapping : Bool)
  deriving Repr, Inhabited

namespace Data

/-- The value of a text that is read from escapes. -/
def ofCodes (codes : Codes) : Data := codes.text?.elim (.halvedText codes) .text

mutual

/-- A value in which the whole stands for the number of its collection. -/
def close (number : Nat) (whole : Data) : Data → Data
  | .again n isMapping => if n = number then whole else .again n isMapping
  | .cyclic n body => if n = number then .cyclic n body else .cyclic n (close number whole body)
  | .list items => .list (closeItems number whole items)
  | .mapping entries => .mapping (closeEntries number whole entries)
  | value => value

/-- The items of a list, closed. -/
def closeItems (number : Nat) (whole : Data) : List Data → List Data
  | [] => []
  | item :: rest => close number whole item :: closeItems number whole rest

/-- The entries of a mapping, closed. Keys are no collections. -/
def closeEntries (number : Nat) (whole : Data) : List (Data × Data) → List (Data × Data)
  | [] => []
  | (key, value) :: rest => (key, close number whole value) :: closeEntries number whole rest

end

/-- A value as a plain list or mapping, if it is a collection. -/
def opened : Data → Data
  | .cyclic number body => close number (.cyclic number body) body
  | value => value

/-- The name of the type of a value. -/
def typeName : Data → Text
  | .null => "NoneType"
  | .bool _ => "bool"
  | .int _ => "int"
  | .fraction _ => "float"
  | .date _ => "date"
  | .time _ => "time"
  | .moment _ => "datetime"
  | .text _ => "str"
  | .halvedText _ => "str"
  | .list _ => "list"
  | .mapping _ => "dict"
  | .cyclic _ body => typeName body
  | .again _ isMapping => if isMapping then "dict" else "list"

/-- The name of the type of a value with the family it belongs to, if it belongs to one. -/
def fullTypeName (value : Data) : Text :=
  match value with
  | .date _ | .time _ | .moment _ => "datetime." ++ value.typeName
  | _ => value.typeName

/-- The decimal text of an integer. -/
def intText (n : Int) : Text :=
  if n < 0 then '-' :: Text.ofNat n.natAbs else Text.ofNat n.natAbs

/-- A name with arguments. -/
def application (name : Text) (arguments : List Text) : Text :=
  name ++ "(" ++ Text.join ", " arguments ++ ")"

/-- The written form of an offset from universal time. -/
def offsetWritten (minutes : Int) : Text :=
  if minutes = 0 then "datetime.timezone.utc"
  else application "datetime.timezone" [minutesSpan minutes]

/-- The written form of a moment: its numbers, and its offset if there is one. -/
def momentWritten (moment : Moment) : Text :=
  application "datetime.datetime"
    ((moment.date.parts ++ moment.time.parts).map Text.ofNat ++
      (moment.offset.map fun minutes => ("tzinfo=" : Text) ++ offsetWritten minutes).toList)

/-- What stands for a collection inside itself. -/
def elided (isMapping : Bool) : Text := if isMapping then "\x7b...\x7d" else "[...]"

/-- Whether a value is a mapping. -/
def isMapping : Data → Bool
  | .mapping _ => true
  | _ => false

mutual

/-- The written form of a value inside another one; texts stand in quotes. The numbers are those
of the collections that are being written. -/
def writtenWithin (around : List Nat) : Data → Text
  | .null => "None"
  | .bool true => "True"
  | .bool false => "False"
  | .int n => intText n
  | .fraction value => value.shown
  | .date value => application "datetime.date" (value.parts.map Text.ofNat)
  | .time value => application "datetime.time" (value.parts.map Text.ofNat)
  | .moment value => momentWritten value
  | .text t => Text.quoted t
  | .halvedText codes => codes.quoted
  | .list items => "[" ++ Text.join ", " (writtenItems around items) ++ "]"
  | .mapping entries => "\x7b" ++ Text.join ", " (writtenEntries around entries) ++ "\x7d"
  | .cyclic number body =>
    if around.contains number then elided body.isMapping
    else writtenWithin (number :: around) body
  | .again _ isMapping => elided isMapping

/-- The written forms of the members of a list. -/
def writtenItems (around : List Nat) : List Data → List Text
  | [] => []
  | item :: rest => writtenWithin around item :: writtenItems around rest

/-- The written forms of the entries of a mapping. -/
def writtenEntries (around : List Nat) : List (Data × Data) → List Text
  | [] => []
  | (key, value) :: rest =>
    (writtenWithin around key ++ ": " ++ writtenWithin around value) ::
      writtenEntries around rest

end

/-- The written form of a value; texts stand in quotes. -/
def written (value : Data) : Text := writtenWithin [] value

/-- The text of a value by itself: a text is its own, dates and times are written in digits. -/
def asText : Data → Text
  | .text t => t
  | .halvedText codes => codes.mended
  | .date value => value.shown
  | .time value => value.shown
  | .moment value => value.shown
  | value => written value

/-- A finite number in units of the least positive fraction. Truth values count as one and
zero. -/
def asUnits? : Data → Option Int
  | .bool value => some (if value then Fraction.unitsInOne else 0)
  | .int n => some (n * Fraction.unitsInOne)
  | .fraction (.finite negative mantissa exponent) =>
    let units : Int := Fraction.units mantissa exponent
    some (if negative then -units else units)
  | _ => none

/-- Whether two values are the same key. Numbers are the same when they are equal, of whatever
type. -/
def sameKey : Data → Data → Bool
  | .null, .null => true
  | .date a, .date b => a == b
  | .time a, .time b => a == b
  | .moment a, .moment b => a.same b
  | .text a, .text b => a == b
  | .halvedText a, .halvedText b => a == b
  | .fraction (.infinite a), .fraction (.infinite b) => a == b
  | .fraction .undefined, .fraction .undefined => true
  | a, b =>
    match a.asUnits?, b.asUnits? with
    | some m, some n => m == n
    | _, _ => false

/-- Set an entry of a mapping; a key that is there keeps its place and its form. -/
def putEntry (key value : Data) : List (Data × Data) → List (Data × Data)
  | [] => [(key, value)]
  | (k, v) :: rest =>
    if sameKey k key then (k, value) :: rest else (k, v) :: putEntry key value rest

/-- The value of the first entry whose key is the given text. -/
def lookup? (key : Text) : List (Data × Data) → Option Data
  | [] => none
  | (.text k, v) :: rest => if k = key then some v else lookup? key rest
  | _ :: rest => lookup? key rest

/-- Whether a value counts as nothing: null, false, zero or empty. -/
def isNothing : Data → Bool
  | .null => true
  | .bool b => !b
  | .int n => n == 0
  | .fraction (.finite _ mantissa _) => mantissa == 0
  | .text t => t.isEmpty
  | .list items => items.isEmpty
  | .mapping entries => entries.isEmpty
  | _ => false

end Data
end EnvFiles

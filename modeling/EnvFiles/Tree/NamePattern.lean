import EnvFiles.Text.Basic

/-!
# Patterns for names

In a pattern `?` stands for one character and `*` for any number of them. A set in brackets stands
for one character in it, or not in it after `!`. A closing bracket that comes first in a set
belongs to it, a hyphen between two characters makes a range, and a bracket that is never closed
stands for itself. A pattern covers whole names, hidden ones too.
-/

namespace EnvFiles

/-- One part of a pattern. -/
inductive NameItem
  | char (c : Char)
  | anyChar
  | anyText
  | set (excluded : Bool) (ranges : List (Char × Char))
  deriving DecidableEq, Repr, Inhabited

/-- Whether an item stands for a character. -/
def NameItem.covers (c : Char) : NameItem → Bool
  | .char d => c == d
  | .anyChar => true
  | .anyText => false
  | .set excluded ranges => excluded != ranges.any fun (low, high) => low ≤ c && c ≤ high

/-- A pattern for names. -/
abbrev NamePattern := List NameItem

namespace NamePattern

/-- The ranges that the text of a set stands for; one character is a range of its own. -/
def rangesOf : Text → List (Char × Char)
  | low :: '-' :: high :: rest => (low, high) :: rangesOf rest
  | c :: rest => (c, c) :: rangesOf rest
  | [] => []

/-- The text of a set after its opening bracket, and what follows its closing one. -/
def setBody? (text : Text) : Option (Text × Text) :=
  let (first, rest) : Text × Text := match text with
    | ']' :: rest => ([']'], rest)
    | _ => ([], text)
  match rest.dropWhile (· != ']') with
  | _ :: after => some (first ++ rest.takeWhile (· != ']'), after)
  | [] => none

/-- A set after its opening bracket, and what follows it. -/
def set? (text : Text) : Option (NameItem × Text) :=
  let (excluded, rest) : Bool × Text := match text with
    | '!' :: rest => (true, rest)
    | _ => (false, text)
  (setBody? rest).map fun (body, after) => (.set excluded (rangesOf body), after)

/-- The items of a pattern; the number bounds them. -/
def itemsOf : Nat → Text → NamePattern
  | 0, _ => []
  | _, [] => []
  | items + 1, c :: rest =>
    if c = '*' then .anyText :: itemsOf items rest
    else if c = '?' then .anyChar :: itemsOf items rest
    else if c = '[' then
      match set? rest with
      | some (item, after) => item :: itemsOf items after
      | none => .char c :: itemsOf items rest
    else .char c :: itemsOf items rest

/-- The pattern that a text stands for. -/
def ofText (text : Text) : NamePattern := itemsOf text.length text

/-- Whether a text holds a character that makes it a pattern. -/
def isPattern (text : Text) : Bool := text.any fun c => c == '*' || c == '?' || c == '['

/-- Of a list of answers for the ends of a name, the longest end first: whether one of them or of
those after it is true. -/
def someFrom : List Bool → List Bool
  | [] => []
  | answer :: rest =>
    match someFrom rest with
    | [] => [answer]
    | later :: more => (answer || later) :: later :: more

/-- The answers for an item before a pattern, from the answers for the pattern: the item covers
one character. -/
def oneMore (item : NameItem) : Text → List Bool → List Bool
  | c :: name, _ :: later :: more => (item.covers c && later) :: oneMore item name (later :: more)
  | _, _ => [false]

/-- For each end of a name, the longest first, whether a pattern covers it. -/
def coveredEnds (name : Text) : NamePattern → List Bool
  | [] => name.map (fun _ => false) ++ [true]
  | .anyText :: rest => someFrom (coveredEnds name rest)
  | item :: rest => oneMore item name (coveredEnds name rest)

/-- Whether a pattern covers a name. -/
def covers (pattern : NamePattern) (name : Text) : Bool :=
  (coveredEnds name pattern).headD false

end NamePattern
end EnvFiles

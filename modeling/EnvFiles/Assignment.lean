import EnvFiles.Text.Lines

/-!
# Lines that assign a value to a name

A name starts with an ASCII letter or underscore and goes on with letters, digits and
underscores. An assignment is a name, blanks if any, an equals sign and the value, which is the
rest of the line as it stands. Blanks around the whole line do not count.
-/

namespace EnvFiles

/-- Characters that can start a name. -/
def isNameStart (c : Char) : Bool := c.isAlpha || c == '_'

/-- Characters that can continue a name. -/
def isNameChar (c : Char) : Bool := c.isAlphanum || c == '_'

/-- A name by itself. -/
def isName : Text → Bool
  | [] => false
  | c :: rest => isNameStart c && rest.all isNameChar

/-- The name at the start of a text and what follows it. -/
def takeName? : Text → Option (Text × Text)
  | [] => none
  | c :: rest =>
    if isNameStart c then some (c :: rest.takeWhile isNameChar, rest.dropWhile isNameChar)
    else none

/-- The name and value that a line assigns. -/
def assignment? (line : Text) : Option (Text × Text) :=
  match takeName? (Text.trim line) with
  | none => none
  | some (name, rest) =>
    match rest.dropWhile Text.isBlank with
    | '=' :: value => if value.contains '\n' then none else some (name, value)
    | _ => none

/-- A comment line, given without blanks around it. -/
def isComment (trimmed : Text) : Bool := trimmed.head? == some '#'

end EnvFiles

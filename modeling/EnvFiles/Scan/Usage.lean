import EnvFiles.Table

/-!
# References to variables in source lines

A line refers to a variable by a property of the process environment, by a quoted key of it, or
by a property of the module's environment. The name starts with a capital letter and goes on as
far as capital letters, digits and underscores go. The references of each form are found from
left to right without overlap, one form after the other.
-/

namespace EnvFiles

/-- One reference: the file, the number of the line and the text that refers. -/
structure Usage where
  file : Text
  line : Nat
  matched : Text
  deriving DecidableEq, Repr, Inhabited

/-- Characters that can continue a name in a reference. -/
def isReferenceChar (c : Char) : Bool := c.isUpper || c.isDigit || c == '_'

/-- The name at the start of a text, and the rest. -/
def referenceName? : Text → Option (Text × Text)
  | [] => none
  | c :: rest =>
    if c.isUpper then some (c :: rest.takeWhile isReferenceChar, rest.dropWhile isReferenceChar)
    else none

/-- A reference found at the start of a text: the variable, the text that refers to it and the
rest of the line. -/
structure Reference where
  name : Text
  matched : Text
  rest : Text
  deriving DecidableEq, Repr, Inhabited

/-- A form of reference, tried at the start of a text. -/
abbrev ReferenceForm := Text → Option Reference

/-- A property after the given start. -/
def propertyForm (start : Text) : ReferenceForm := fun text => do
  let (name, rest) ← referenceName? (← Text.dropStart? start text)
  return ⟨name, start ++ name, rest⟩

/-- Single and double quotes. -/
def isQuote (c : Char) : Bool := c == '"' || c == '\''

/-- A key in brackets and quotes after the given start. The quotes need not be the same. -/
def keyForm (start : Text) : ReferenceForm := fun text =>
  match Text.dropStart? (start ++ "[") text with
  | some (opening :: inner) =>
    if isQuote opening then
      match referenceName? inner with
      | some (name, closing :: ']' :: rest) =>
        if isQuote closing then
          some ⟨name, start ++ "[" ++ (opening :: name) ++ (closing :: "]"), rest⟩
        else none
      | _ => none
    else none
  | _ => none

/-- The forms of reference, in the order in which a line is searched for them. -/
def referenceForms : List ReferenceForm := [
  propertyForm "process.env.",
  keyForm "process.env",
  propertyForm "import.meta.env."]

/-- The references of one form on a line, from left to right. The counter runs over the rest of
a reference that has been found. -/
def referencesFrom (form : ReferenceForm) : Nat → Text → List Reference
  | _, [] => []
  | skipped + 1, _ :: rest => referencesFrom form skipped rest
  | 0, c :: rest =>
    match form (c :: rest) with
    | some found => found :: referencesFrom form (found.matched.length - 1) rest
    | none => referencesFrom form 0 rest

/-- Every reference on a line with the name it refers to, form by form. -/
def usagesOn (line : Text) (number : Nat) (file : Text) : List (Text × Usage) :=
  referenceForms.flatMap fun form =>
    (referencesFrom form 0 line).map fun found => (found.name, ⟨file, number, found.matched⟩)

end EnvFiles

import EnvFiles.Text.Basic

/-!
# What an example file declares

A schema is an ordered list of variable definitions. A definition says how strongly the variable
is needed and which directive supplies its value: one of the built-in directives, or one that
a plugin claims by its kind.
-/

namespace EnvFiles

/-- How strongly a variable is needed. -/
inductive Requirement
  | required
  | optional
  | deprecated
  deriving DecidableEq, Repr, Inhabited

/-- The word for a requirement level. -/
def Requirement.word : Requirement → Text
  | .required => "required"
  | .optional => "optional"
  | .deprecated => "deprecated"

/-- The level that a word names. -/
def Requirement.ofWord? (word : Text) : Option Requirement :=
  [Requirement.required, .optional, .deprecated].find? fun level => level.word == word

/-- Where the value of a missing variable comes from. -/
inductive Directive
  /-- Ask for the value. -/
  | prompt
  /-- Take the example value. -/
  | placeholder
  /-- Needed on a developer's machine only. -/
  | localOnly
  /-- Generate a value of the given kind. -/
  | computed (what : Text)
  /-- Take the value of another variable. -/
  | copy (source : Text)
  /-- Take a literal, or the example value when none is given. -/
  | fixed (value : Option Text)
  /-- Ask a yes/no question and write one of two literals. -/
  | boolean (yes no : Text)
  /-- A kind that a plugin claims, with the text that named it. -/
  | plugin (kind raw : Text)
  deriving DecidableEq, Repr, Inhabited

/-- The kind of a directive, by which its value source is chosen. -/
def Directive.kind : Directive → Text
  | .prompt => "prompt"
  | .placeholder => "placeholder"
  | .localOnly => "local-only"
  | .computed _ => "computed"
  | .copy _ => "copy"
  | .fixed _ => "default"
  | .boolean _ _ => "boolean"
  | .plugin kind _ => kind

/-- A directive of the built-in kinds. -/
def Directive.isBuiltin : Directive → Bool
  | .plugin _ _ => false
  | _ => true

/-- One variable that an example file declares. -/
structure Definition where
  name : Text
  exampleValue : Text := []
  requirement : Requirement := .optional
  directive : Directive := .placeholder
  description : Text := []
  rawComment : Text := []
  deriving DecidableEq, Repr, Inhabited

/-- Whether the variable must have a value. -/
def Definition.isRequired (definition : Definition) : Bool :=
  definition.requirement = .required

/-- The ordered definitions of one example file. -/
structure Schema where
  sourcePath : Text := []
  definitions : List Definition := []
  deriving DecidableEq, Repr, Inhabited

/-- The declared names in order. -/
def Schema.names (schema : Schema) : List Text := schema.definitions.map Definition.name

/-- Requirement words read back. -/
theorem Requirement.ofWord?_word (level : Requirement) :
    Requirement.ofWord? level.word = some level := by
  cases level <;> decide

end EnvFiles

import EnvFiles.Ci
import EnvFiles.Resolution.Dialogue

/-!
# Built-in value sources

Each built-in directive kind has its own way to a value. A directive that a plugin's pattern
named, but whose kind is a built-in one and which no plugin claims any more, is treated as that
kind without arguments; any other kind counts as a placeholder.
-/

namespace EnvFiles

/-- A built-in way to a value. What is computed or copied is left open where the directive does
not say it. -/
inductive BuiltinSource
  | prompt
  | placeholder
  | localOnly
  | computed (what : Option Text)
  | copy (source : Option Text)
  | fixed (value : Option Text)
  | boolean (yes no : Text)
  deriving DecidableEq, Repr, Inhabited

/-- The built-in source that a kind names. -/
def BuiltinSource.ofKind (kind : Text) : BuiltinSource :=
  if kind = "prompt" then .prompt
  else if kind = "local-only" then .localOnly
  else if kind = "computed" then .computed none
  else if kind = "copy" then .copy none
  else if kind = "default" then .fixed none
  else if kind = "boolean" then .boolean "true" "false"
  else .placeholder

/-- The built-in source of a directive. -/
def Directive.builtinSource : Directive → BuiltinSource
  | .prompt => .prompt
  | .placeholder => .placeholder
  | .localOnly => .localOnly
  | .computed what => .computed (if what.isEmpty then none else some what)
  | .copy source => .copy (some source)
  | .fixed value => .fixed value
  | .boolean yes no => .boolean yes no
  | .plugin kind _ => .ofKind kind

/-- The example value, under a warning when the variable is required. -/
def resolvePlaceholder (definition : Definition) : Resolved where
  value := definition.exampleValue
  source := "placeholder"
  warning := if definition.isRequired then
    some ("Placeholder used for required variable: " ++ definition.name) else none

/-- The example value, because the kind of computation is not known. -/
def resolveComputed (definition : Definition) (what : Option Text) : Resolved where
  value := definition.exampleValue
  source := "placeholder"
  warning := some (match what with
    | some what => "Computed type '" ++ what ++ "' not supported, using example value"
    | none => "No compute type specified, using example value")

/-- The value that another variable has so far. -/
def resolveCopy (definition : Definition) (values : Table Text Text) : Option Text → Resolved
  | none =>
    { value := definition.exampleValue
      source := "placeholder"
      warning := some "No source variable specified for copy directive" }
  | some source =>
    match values.get? source with
    | some value => { value, source := "copied" }
    | none =>
      { source := "copied"
        warning := some ("Source variable " ++ source ++ " not found for copying to " ++
          definition.name) }

/-- A literal, or the example value. -/
def resolveFixed (definition : Definition) (value : Option Text) : Resolved where
  value := value.getD definition.exampleValue
  source := "default"

/-- Whether a variable for developers' machines is left out. -/
def skipsLocalOnly (scope : Scope) : Bool := !scope.interactive || isCi scope.config scope.environ

/-- What stands for a value that would have been asked for. -/
def promptPlaceholder (definition : Definition) : Resolved where
  value := if definition.exampleValue.isEmpty then "REPLACE_ME_" ++ definition.name
    else definition.exampleValue
  source := "placeholder"
  warning := some ("Non-interactive mode: using placeholder for " ++ definition.name)

/-- The literal that the example value stands for, because nobody can be asked. -/
def booleanUnasked (definition : Definition) (yes no : Text) : Resolved :=
  let value := booleanDefault definition yes no
  { value
    source := "default"
    warning := some ("Non-interactive mode: using " ++ value ++ " for " ++ definition.name) }

/-- Resolve a variable by the built-in source of its directive. -/
def resolveBuiltin (scope : Scope) (values : Table Text Text) (definition : Definition) :
    DeskStep Resolved :=
  match definition.directive.builtinSource with
  | .placeholder => pure (resolvePlaceholder definition)
  | .computed what => pure (resolveComputed definition what)
  | .copy source => pure (resolveCopy definition values source)
  | .fixed value => pure (resolveFixed definition value)
  | .localOnly =>
    if skipsLocalOnly scope then pure { source := "default", skipped := true }
    else pure (resolveFixed definition none)
  | .prompt =>
    if scope.interactive then DeskStep.converse (promptDialogue definition)
    else pure (promptPlaceholder definition)
  | .boolean yes no =>
    if scope.interactive then DeskStep.converse (booleanDialogue definition yes no)
    else pure (booleanUnasked definition yes no)

end EnvFiles

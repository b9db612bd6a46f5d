import EnvFiles.Definition
import EnvFiles.Table
import EnvFiles.Path

/-!
# Comparing a schema with a workspace's values

Every definition that is not deprecated is valid when it has a value that is not empty and
missing otherwise. A deprecated one is reported only while a value, even an empty one, is still
there. Names without a definition are extra. A valid shared name whose value differs from the
canonical one is an override.
-/

namespace EnvFiles

/-- One project of the tree, with its example file and its values file. -/
structure Workspace where
  name : Text
  path : Path
  examplePath : Path
  valuesPath : Path
  deriving DecidableEq, Repr, Inhabited

/-- How the variables of one workspace stand. -/
structure Comparison where
  workspace : Workspace
  valid : List Definition := []
  missing : List Definition := []
  extra : List Text := []
  deprecated : List Text := []
  overrides : Table Text Text := []
  deriving DecidableEq, Repr, Inhabited

/-- The missing definitions of one requirement level. -/
def Comparison.missingOf (comparison : Comparison) (level : Requirement) : List Definition :=
  comparison.missing.filter fun definition => definition.requirement = level

/-- The value of a shared name that differs from the canonical one. -/
def override? (sharedValues : Option (Table Text Text)) (sharedNames : List Text)
    (values : Table Text Text) (definition : Definition) : Option (Text × Text) :=
  match sharedValues, values.get? definition.name with
  | some shared, some value =>
    if sharedNames.contains definition.name then
      match shared.get? definition.name with
      | some canonical => if canonical = value then none else some (definition.name, value)
      | none => none
    else none
  | _, _ => none

/-- Compare a schema with the values of a workspace. Overrides are looked for only when shared
values and shared names are given. -/
def compare (schema : List Definition) (values : Table Text Text) (workspace : Workspace)
    (sharedValues : Option (Table Text Text) := none) (sharedNames : List Text := []) :
    Comparison :=
  let active := schema.filter fun definition => definition.requirement ≠ .deprecated
  let valid := active.filter fun definition => values.fills definition.name
  { workspace
    valid
    missing := active.filter fun definition => !values.fills definition.name
    deprecated := (schema.filter fun definition =>
      definition.requirement = .deprecated && values.has definition.name).map Definition.name
    extra := values.keys.filter fun name => !(schema.map Definition.name).contains name
    overrides := Table.ofEntries
      (valid.filterMap (override? sharedValues sharedNames values)) }

end EnvFiles

import EnvFiles.Config.Basic
import EnvFiles.Plugin.Registry
import EnvFiles.Scan.Result

/-!
# Declared and referenced names

A diagnosis compares the names that source code refers to with the names that example files
declare. A reference without a declaration is missing unless its name is one that the platform
or a plugin provides; a declared name without a reference is unused unless it is configured as
used elsewhere.
-/

namespace EnvFiles

/-- The outcome of a diagnosis. -/
structure Diagnosis where
  missing : Table Text (List Usage) := []
  unused : List Text := []
  defined : List Text := []
  deriving DecidableEq, Repr, Inhabited

/-- Names that every platform provides. -/
def providedNames : List Text := ["NODE_ENV"]

/-- The names never reported missing. -/
def ignoredMissing (config : Config) (registry : Registry) : List Text :=
  providedNames ++ config.scanning.ignoreMissing ++ registry.ignoreMissing

/-- Compare referenced and declared names. -/
def diagnose (usages : Table Text (List Usage)) (declared : List Text)
    (ignoreMissing : List Text := providedNames) (ignoreUnused : List Text := []) : Diagnosis where
  missing := usages.filter fun entry =>
    !declared.contains entry.1 && !ignoreMissing.contains entry.1
  defined := usages.keys.filter declared.contains
  unused := (firstOccurrences declared).filter fun name =>
    !usages.has name && !ignoreUnused.contains name

end EnvFiles

import EnvFiles.Config.Basic

/-!
# Continuous integration

A platform is detected when one of its indicator variables has a value that is not empty. The
first platform in the order of the configuration counts. Work is skipped when the configured
skip variable has a value.
-/

namespace EnvFiles

/-- The first platform of which an indicator is set. -/
def detectedPlatform (config : Config) (environ : Table Text Text) : Option Text :=
  (config.ci.detection.find? fun entry => entry.2.any environ.fills).map Prod.fst

/-- Whether any platform is detected. -/
def isCi (config : Config) (environ : Table Text Text) : Bool :=
  (detectedPlatform config environ).isSome

/-- Whether the skip variable is configured and set. -/
def shouldSkip (config : Config) (environ : Table Text Text) : Bool :=
  !config.ci.skipVariable.isEmpty && environ.fills config.ci.skipVariable

end EnvFiles

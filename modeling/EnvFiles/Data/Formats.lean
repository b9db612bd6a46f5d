import EnvFiles.Data.Json
import EnvFiles.Data.Toml
import EnvFiles.Data.Yaml

/-!
# The readers of the configuration formats

What looks for settings takes the readers as given: whatever they accept, the same file is found.
-/

namespace EnvFiles

/-- A reader for each format. -/
structure Formats where
  json : Text → ReadResult Data
  yaml : Text → ReadResult Data
  toml : Text → ReadResult Data

/-- The readers of this library. -/
def Formats.standard : Formats := ⟨Json.read, Yaml.read, Toml.read⟩

end EnvFiles

import EnvFiles.Config.File

/-!
# Searching for settings

Settings are searched from a folder upward. In each folder the places are tried in a fixed order,
and the first file that holds settings is taken. A file that holds none is passed over; one that
cannot be used ends the search.
-/

namespace EnvFiles

/-- The names of files that can hold settings, in the order in which they are tried. -/
def searchPlaces : List Text := [
  "." ++ toolName ++ "rc", "." ++ toolName ++ "rc.json", "." ++ toolName ++ "rc.yaml",
  "." ++ toolName ++ "rc.yml", toolName ++ ".config.yaml", toolName ++ ".config.json",
  projectFileName]

/-- The files that can hold settings for a folder, nearest first. -/
def configCandidates (start : Path) : List Path :=
  start.upward.flatMap fun folder => searchPlaces.map fun name => folder ++ [name]

/-- The settings of the first file that holds any. -/
def firstConfig (formats : Formats) (root : Node) : List Path → Except Failure LoadedConfig
  | [] => .ok {}
  | path :: rest =>
    if root.hasFile path then
      match loadConfigFile formats root path with
      | .ok loaded => if loaded.found then .ok loaded else firstConfig formats root rest
      | .error failure => .error failure
    else firstConfig formats root rest

/-- Search for settings from a folder upward, the links of its path resolved. -/
def loadConfig (formats : Formats) (root : Node) (start : Path) : Except Failure LoadedConfig := do
  firstConfig formats root (configCandidates (← root.resolve start))

end EnvFiles

import EnvFiles.Config.Reading
import EnvFiles.Data.Formats
import EnvFiles.Text.Lines
import EnvFiles.Tree.Walk

/-!
# One file of settings

A project file holds settings in one of its tables. Every other file is wholly settings, in the
format that its suffix names. A file can hold no settings at all, which is no failure; the
defaults count then. What is wrong with a file is told together with its path.
-/

namespace EnvFiles

/-- Settings, the file they come from, and whether it holds any. -/
structure LoadedConfig where
  config : Config := {}
  path : Option Path := none
  found : Bool := false

/-- The name of the tool in the names of its files and in project files. -/
def toolName : Text := "env-vars-doctor"

/-- The name of a project file. -/
def projectFileName : Text := "pyproject.toml"

/-- The value of a key in a table, where nothing stands for a key that is not there. -/
def entryOrNull (key : Text) (entries : List (Data × Data)) : Data :=
  (Data.lookup? key entries).getD .null

/-- The settings in the data of a project file. -/
def projectSettings : Data → Except Failure Data
  | .mapping entries =>
    match (Data.lookup? "tool" entries).getD (.mapping []) with
    | .mapping tools => .ok (entryOrNull toolName tools)
    | _ => .error .toolsNotTable
  | _ => .error .toolsNotTable

/-- A result of reading a text of a format in a file. -/
def located {α : Type} (path : Path) (format : DataFormat) (result : ReadResult α) :
    Except Failure α :=
  result.mapError fun
    | .malformed => .unusableConfig path (.malformed format)
    | .noValue fault => .unusableConfig path (.noValue fault)
    | .tooLarge => .numberTooLarge
    | .tooDeep => .nestedTooDeep

/-- The data of a file that is wholly settings. -/
def settingsData (formats : Formats) (path : Path) (text : Text) : Except Failure Data :=
  if path.suffix = (".json" : Text) then
    if text.all Text.isBlank then .ok .null else located path .json (formats.json text)
  else located path .yaml (formats.yaml text)

/-- The data of a whole file must be nothing or a mapping. -/
def mappingOrNull (data : Data) : Except ConfigFault Data :=
  match data.opened with
  | .null => .ok .null
  | .mapping entries => .ok (.mapping entries)
  | other => .error (.notMapping other.typeName)

/-- The settings in a text, before they are checked; nothing stands for a text without any. -/
def rawSettings (formats : Formats) (path : Path) (text : Text) : Except Failure Data :=
  if path.name = projectFileName then do
    projectSettings (← located path .toml (formats.toml text))
  else do
    (mappingOrNull (← settingsData formats path text)).mapError (Failure.unusableConfig path)

/-- The settings that a text of a file gives. -/
def readSettings (formats : Formats) (path : Path) (text : Text) : Except Failure LoadedConfig := do
  match ← rawSettings formats path text with
  | .null => return { path := some path }
  | raw =>
    match Config.ofData raw with
    | .ok config => return { config, path := some path, found := true }
    | .error issues => throw (.unusableConfig path (.invalid issues))

/-- Load the settings of one file. -/
def loadConfigFile (formats : Formats) (root : Node) (path : Path) : Except Failure LoadedConfig :=
  match root.readText path with
  | .ok text => readSettings formats path text
  | .error .undecodable => .error (.unusableConfig path .undecodable)
  | .error (.noValue fault) => .error (.unusableConfig path (.noValue fault))
  | .error failure => .error failure

end EnvFiles

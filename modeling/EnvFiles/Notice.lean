import EnvFiles.Failure

/-!
# Notices

What the program reports beside its results. A notice has a level, the name of the logger that
takes it and a message.
-/

namespace EnvFiles

/-- How much a notice matters. -/
inductive Level
  | debug
  | info
  | warning
  deriving DecidableEq, Repr, Inhabited

/-- The written form of a level. -/
def Level.word : Level → Text
  | .debug => "DEBUG"
  | .info => "INFO"
  | .warning => "WARNING"

/-- The notices. -/
inductive Notice
  /-- A plugin's source could not be used for a variable. -/
  | sourceUnavailable (name message : Text)
  /-- A plugin could not be loaded. -/
  | pluginNotLoaded (name reason : Text)
  /-- A module offers no plugin. -/
  | pluginNotOffered (name : Text)
  /-- A file that describes workspaces does not follow its format. -/
  | unparsable (path : Path) (format : DataFormat)
  /-- A source file is not UTF-8 text. -/
  | fileSkipped (path : Path)
  /-- A file was read; the count of its characters, if it is there. -/
  | fileRead (logger : Text) (path : Path) (count : Option Nat)
  | fileWritten (logger : Text) (path : Path) (count : Nat)
  | fileDeleted (logger : Text) (path : Path)
  deriving DecidableEq, Repr, Inhabited

namespace Notice

/-- The level of a notice. -/
def level : Notice → Level
  | .fileRead _ _ _ => .debug
  | .fileWritten _ _ _ => .info
  | .fileDeleted _ _ => .info
  | _ => .warning

/-- The name of the logger that takes a notice. -/
def logger : Notice → Text
  | .sourceUnavailable _ _ => "env_vars_doctor.resolver"
  | .pluginNotLoaded _ _ => "env_vars_doctor.loader"
  | .pluginNotOffered _ => "env_vars_doctor.loader"
  | .unparsable _ _ => "env_vars_doctor.workspaces"
  | .fileSkipped _ => "env_vars_doctor.source_scanner"
  | .fileRead logger _ _ => logger
  | .fileWritten logger _ _ => logger
  | .fileDeleted logger _ => logger

/-- The wording of a notice. -/
def message : Notice → Text
  | .sourceUnavailable name message => "resolver: " ++ name ++ ": " ++ message
  | .pluginNotLoaded name reason =>
    "loader: failed to load external plugin " ++ Text.quoted name ++ ": " ++ reason
  | .pluginNotOffered name =>
    "loader: plugin " ++ Text.quoted name ++ " does not export a valid plugin"
  | .unparsable path format =>
    "workspaces: cannot parse " ++ path.written ++ ": <" ++ format.faultName ++ ">"
  | .fileSkipped path => "scanner: skipping " ++ path.written ++ ": not UTF-8 text"
  | .fileRead _ path none => "files: read " ++ path.written ++ " (absent)"
  | .fileRead _ path (some count) =>
    "files: read " ++ path.written ++ " (" ++ Text.ofNat count ++ " chars)"
  | .fileWritten _ path count =>
    "files: write " ++ path.written ++ " (" ++ Text.ofNat count ++ " chars)"
  | .fileDeleted _ path => "files: delete " ++ path.written

end Notice
end EnvFiles

import EnvFiles.Data.Basic
import EnvFiles.Table

/-!
# Settings

Every setting has a default, so a configuration that gives some of them stands for a complete
one.
-/

namespace EnvFiles

/-- How workspace patterns are found when none are configured. -/
inductive Detection
  | auto
  | pnpm
  | npm
  | yarn
  | manual
  deriving DecidableEq, Repr, Inhabited

/-- The word for a way of detection. -/
def Detection.word : Detection → Text
  | .auto => "auto"
  | .pnpm => "pnpm"
  | .npm => "npm"
  | .yarn => "yarn"
  | .manual => "manual"

/-- The way of detection that a word names. -/
def Detection.ofWord? (word : Text) : Option Detection :=
  [Detection.auto, .pnpm, .npm, .yarn, .manual].find? fun detection => detection.word == word

/-- Where workspaces are. -/
structure WorkspaceSettings where
  detection : Detection := .auto
  patterns : List Text := []
  sourceDir : Text := "src"
  deriving DecidableEq, Repr, Inhabited

/-- The names of example and values files. -/
structure ProjectSettings where
  exampleName : Text := ".env.local.example"
  valuesName : Text := ".env.local"
  workspaces : WorkspaceSettings := {}
  deriving DecidableEq, Repr, Inhabited

/-- What is scanned, and what a diagnosis leaves out. -/
structure ScanSettings where
  extensions : List Text := [".ts", ".tsx", ".js", ".jsx", ".mjs", ".cjs"]
  skipDirs : List Text := ["node_modules", "dist", ".next", "build", "coverage", ".git"]
  ignoreMissing : List Text := []
  ignoreUnused : List Text := []
  deriving DecidableEq, Repr, Inhabited

/-- How a continuous-integration platform is recognised, and what is not checked there. -/
structure CiSettings where
  skipVariable : Text := "SKIP_ENV_DOCTOR"
  skipDirectives : List Text := ["local-only", "prompt"]
  detection : Table Text (List Text) := [
    ("ci", ["CI", "CONTINUOUS_INTEGRATION"]), ("github", ["GITHUB_ACTIONS"]),
    ("vercel", ["VERCEL"]), ("netlify", ["NETLIFY"])]
  deriving DecidableEq, Repr, Inhabited

/-- A plugin named by its module, with the options handed to it. -/
structure PluginReference where
  name : Text
  options : Table Text Data := []
  deriving Repr, Inhabited

/-- The settings of a project. -/
structure Config where
  project : ProjectSettings := {}
  scanning : ScanSettings := {}
  ci : CiSettings := {}
  plugins : List PluginReference := []
  deriving Repr, Inhabited

/-- The patterns that stand for workspaces when none are configured or detected. -/
def usualPatterns : List Text := ["apps/*", "packages/*"]

/-- The version that a configuration may declare. -/
def configVersion : Text := "1"

end EnvFiles

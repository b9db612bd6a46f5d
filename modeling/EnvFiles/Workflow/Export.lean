import EnvFiles.Data.JsonText
import EnvFiles.Workflow.Files

/-!
# Exporting values

The values of a workspace that are declared and not empty are written as assignments, for a
values file, for a shell or for a deployment, in the order of the effective schema. The JSON
format lists the declared names by requirement and by whether they are shared.
-/

namespace EnvFiles

/-- The formats of an export. -/
inductive ExportFormat
  | json
  | shell
  | values
  | vercel
  deriving DecidableEq, Repr, Inhabited

/-- The format that a word names. -/
def ExportFormat.ofWord? (word : Text) : Option ExportFormat :=
  if word = "json" then some .json
  else if word = "shell" then some .shell
  else if word = "values" then some .values
  else if word = "vercel" then some .vercel
  else none

/-- A value between single quotes; a quote inside it ends them, stands escaped, and begins new
ones. -/
def shellQuoted (value : Text) : Text :=
  "'" ++ (value.flatMap fun c => if c = '\'' then "'\\''" else [c]) ++ "'"

/-- The assignment of one entry. -/
def exportLine (format : ExportFormat) (entry : Text × Text) : Text :=
  match format with
  | .shell => "export " ++ entry.1 ++ "=" ++ shellQuoted entry.2
  | .vercel => entry.1 ++ "=\"" ++ entry.2 ++ "\""
  | _ => entry.1 ++ "=" ++ entry.2

/-- The declared names that have a value, with their values, in the order of the schema. -/
def exportedValues (schema : List Definition) (values : Table Text Text) : Table Text Text :=
  Table.ofEntries (schema.filterMap fun definition =>
    (values.filled? definition.name).map fun value => (definition.name, value))

/-- Declared names by requirement and by whether they are shared. -/
structure NameSummary where
  required : List Text := []
  optional : List Text := []
  appSpecific : List Text := []
  shared : List Text := []
  deriving DecidableEq, Repr, Inhabited

/-- The summary of a schema. -/
def NameSummary.ofSchema (sharedNames : List Text) (schema : List Definition) : NameSummary :=
  let named (keep : Definition → Bool) := (schema.filter keep).map Definition.name
  { required := named fun definition => definition.requirement = .required
    optional := named fun definition => definition.requirement = .optional
    appSpecific := named fun definition => !sharedNames.contains definition.name
    shared := named fun definition => sharedNames.contains definition.name }

/-- A summary as data. -/
def NameSummary.toData (summary : NameSummary) : Data :=
  let names (items : List Text) : Data := .list (items.map Data.text)
  .mapping [
    (.text "required", names summary.required),
    (.text "optional", names summary.optional),
    (.text "app_specific", names summary.appSpecific),
    (.text "shared", names summary.shared)]

/-- Summaries by workspace as data. -/
def summariesData (summaries : Table Text NameSummary) : Data :=
  .mapping (summaries.map fun entry => (.text entry.1, entry.2.toData))

variable {σ : Type}

/-- The summaries of workspaces, given the shared names and the summaries so far. -/
def summariesFrom (store : Store σ) (registry : Registry) (options : RunOptions)
    (sharedNames : List Text) :
    Table Text NameSummary → List Workspace → Run σ (Table Text NameSummary)
  | summaries, [] => pure summaries
  | summaries, workspace :: rest => do
    let schema ← workspaceSchema store registry.patterns options.rootExample workspace
    let summary := NameSummary.ofSchema sharedNames schema
    summariesFrom store registry options sharedNames (summaries.put workspace.name summary) rest

/-- The declared names of workspaces. -/
def exportSummary (store : Store σ) (registry : Registry) (options : RunOptions)
    (workspaces : List Workspace) : Run σ (Table Text NameSummary) := do
  let shared ← readExampleFile store registry.patterns options.rootExample
  summariesFrom store registry options shared.names [] workspaces

/-- Export a workspace. -/
def exportWorkspace (store : Store σ) (registry : Registry) (options : RunOptions)
    (workspace : Workspace) (format : Text := "values") : Run σ Text :=
  match ExportFormat.ofWord? format with
  | none => throw (.unknownFormat format)
  | some .json => do
    let summaries ← exportSummary store registry options [workspace]
    return Data.toJson 0 (summariesData summaries)
  | some chosen => do
    let schema ← workspaceSchema store registry.patterns options.rootExample workspace
    let file ← readValuesFile store workspace.valuesPath
    let lines := (exportedValues schema file.values).map (exportLine chosen)
    return lines.flatMap fun line => line ++ "\n"

end EnvFiles

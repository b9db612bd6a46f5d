import EnvFiles.Scan.Diagnosis
import EnvFiles.Scan.Walk
import EnvFiles.Workflow.Files

/-!
# Diagnosing a project

The source code of all workspaces and shared packages is scanned, and the names it refers to are
compared with the names that the example files of the root and the workspaces declare.
-/

namespace EnvFiles

/-- The outcome of diagnosing a project. -/
structure DiagnoseReport where
  files : Nat := 0
  lines : Nat := 0
  declared : List Text := []
  diagnosis : Diagnosis := {}
  deriving DecidableEq, Repr, Inhabited

/-- Whether nothing is missing. -/
def DiagnoseReport.ok (report : DiagnoseReport) : Bool := report.diagnosis.missing.isEmpty

variable {σ : Type}

/-- The declared names, given those declared so far. -/
def declaredNames (store : Store σ) (registry : Registry) :
    List Text → List Path → Run σ (List Text)
  | names, [] => pure names
  | names, path :: rest => do
    let schema ← readExampleFile store registry.patterns path
    declaredNames store registry (firstOccurrences (names ++ schema.names)) rest

/-- Scan workspaces in order. -/
def scanWorkspaces (config : Config) (disk : Node) :
    List Workspace → DeskStep (List ScanResult)
  | [] => pure []
  | workspace :: rest => do
    let result ← scanWorkspace config disk workspace.path
    return result :: (← scanWorkspaces config disk rest)

/-- Diagnose a project whose sources stand on the given tree. -/
def diagnoseProject (store : Store σ) (disk : Node) (registry : Registry) (config : Config)
    (root : Path) (workspaces : List Workspace) : Run σ DiagnoseReport := do
  let rootExample := Path.join root config.project.exampleName
  let declared ← declaredNames store registry []
    (rootExample :: workspaces.map Workspace.examplePath)
  let scans ← Run.atDesk (scanWorkspaces config disk workspaces)
  let packages ← Run.atDesk (scanAllPackages config disk root)
  let merged := ScanResult.merge (scans ++ [packages])
  return {
    files := merged.files
    lines := merged.lines
    declared
    diagnosis := diagnose merged.usages declared (ignoredMissing config registry)
      config.scanning.ignoreUnused }

end EnvFiles

import EnvFiles.Workflow.Files

/-!
# Checking workspaces

A check compares every workspace with its effective schema. A status does the same and measures
overrides against the root's values file. Neither asks nor writes.
-/

namespace EnvFiles

/-- The comparisons of a check. -/
structure CheckReport where
  results : List Comparison := []
  deriving DecidableEq, Repr, Inhabited

namespace CheckReport

/-- Names listed under their workspaces, for the results that have any. A workspace name that
comes again replaces what was listed under it. -/
def listed (report : CheckReport) (names : Comparison → List Text) : Table Text (List Text) :=
  Table.ofEntries (report.results.filterMap fun result =>
    match names result with
    | [] => none
    | found => some (result.workspace.name, found))

/-- The missing names of one requirement level. -/
def missing (report : CheckReport) (level : Requirement) : Table Text (List Text) :=
  report.listed fun result => (result.missingOf level).map Definition.name

/-- The deprecated names that are still present. -/
def deprecated (report : CheckReport) : Table Text (List Text) :=
  report.listed Comparison.deprecated

/-- Whether no required variable is missing. -/
def ok (report : CheckReport) : Bool := (report.missing .required).isEmpty

end CheckReport

variable {σ : Type}

/-- Compare one workspace with its effective schema. -/
def checkWorkspace (store : Store σ) (registry : Registry) (options : RunOptions)
    (sharedValues : Option (Table Text Text)) (sharedNames : List Text) (workspace : Workspace) :
    Run σ Comparison := do
  let schema ← workspaceSchema store registry.patterns options.rootExample workspace
  let file ← readValuesFile store workspace.valuesPath
  return compare schema file.values workspace sharedValues sharedNames

/-- Compare workspaces in order. -/
def checkWorkspaces (store : Store σ) (registry : Registry) (options : RunOptions)
    (sharedValues : Option (Table Text Text)) (sharedNames : List Text) :
    List Workspace → Run σ (List Comparison)
  | [] => pure []
  | workspace :: rest => do
    let result ← checkWorkspace store registry options sharedValues sharedNames workspace
    return result :: (← checkWorkspaces store registry options sharedValues sharedNames rest)

/-- Check workspaces. -/
def check (store : Store σ) (registry : Registry) (options : RunOptions)
    (workspaces : List Workspace) : Run σ CheckReport := do
  return { results := ← checkWorkspaces store registry options none [] workspaces }

/-- Check workspaces and compare their values with those of the root. -/
def status (store : Store σ) (registry : Registry) (options : RunOptions)
    (workspaces : List Workspace) : Run σ CheckReport := do
  let shared ← readExampleFile store registry.patterns options.rootExample
  let root ← readValuesFile store options.rootValues
  return { results :=
    ← checkWorkspaces store registry options (some root.values) shared.names workspaces }

end EnvFiles

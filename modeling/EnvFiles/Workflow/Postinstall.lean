import EnvFiles.Workflow.CiCheck

/-!
# After installing dependencies

Under continuous integration the environment is checked. Elsewhere the names that still lack a
value are listed, once each: a shared name when any workspace with an example file lacks it, a
workspace's own names when it lacks them. The listing never fails.
-/

namespace EnvFiles

/-- What is listed after an installation. -/
structure PostinstallReport where
  ci : Option CiReport := none
  missingRequired : List Text := []
  missingOptional : List Text := []
  deriving DecidableEq, Repr, Inhabited

namespace PostinstallReport

/-- Whether nothing is missing. -/
def ready (report : PostinstallReport) : Bool :=
  report.missingRequired.isEmpty && report.missingOptional.isEmpty

/-- Whether the check under continuous integration, if there was one, found nothing missing. -/
def ok (report : PostinstallReport) : Bool :=
  match report.ci with
  | some ci => ci.ok
  | none => true

/-- List a missing definition, unless its name is listed or it is deprecated. -/
def add (report : PostinstallReport) (definition : Definition) : PostinstallReport :=
  let listIn (names : List Text) :=
    if definition.name ∈ names then names else names ++ [definition.name]
  match definition.requirement with
  | .required => { report with missingRequired := listIn report.missingRequired }
  | .optional => { report with missingOptional := listIn report.missingOptional }
  | .deprecated => report

end PostinstallReport

variable {σ : Type}

/-- The workspaces whose example file the store holds. -/
def withExample (store : Store σ) (workspaces : List Workspace) : Run σ (List Workspace) := do
  let state := (← get).store
  return workspaces.filter fun workspace => store.holds workspace.examplePath state

/-- The values of workspaces, in order. -/
def readHoldings (store : Store σ) : List Workspace → Run σ (List (Workspace × Table Text Text))
  | [] => pure []
  | workspace :: rest => do
    let file ← readValuesFile store workspace.valuesPath
    return (workspace, file.values) :: (← readHoldings store rest)

/-- List what workspaces lack of their own example files. -/
def listOwnMissing (store : Store σ) (registry : Registry) :
    PostinstallReport → List (Workspace × Table Text Text) → Run σ PostinstallReport
  | report, [] => pure report
  | report, (workspace, values) :: rest => do
    let schema ← readExampleFile store registry.patterns workspace.examplePath
    let lacking := schema.definitions.filter fun definition => !values.fills definition.name
    listOwnMissing store registry (lacking.foldl PostinstallReport.add report) rest

/-- The summary after an installation. -/
def postinstall (store : Store σ) (registry : Registry) (options : RunOptions)
    (environ : Table Text Text) (workspaces : List Workspace) : Run σ PostinstallReport := do
  if isCi options.config environ then
    return { ci := some (← ciCheck store registry options environ workspaces) }
  else
    let workspaces ← withExample store workspaces
    let holdings ← readHoldings store workspaces
    let shared ← readExampleFile store registry.patterns options.rootExample
    let lacking := shared.definitions.filter fun definition =>
      holdings.any fun holding => !holding.2.fills definition.name
    listOwnMissing store registry (lacking.foldl PostinstallReport.add {}) holdings

end EnvFiles

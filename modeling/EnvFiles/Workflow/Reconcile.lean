import EnvFiles.Resolution.Pass
import EnvFiles.Workflow.Files

/-!
# Reconciling workspaces

A workspace is reconciled by comparing its values with its effective schema and resolving what is
missing. Nothing is written until all of its variables are resolved; then its values file is
rewritten once. Workspaces are reconciled one after another.
-/

namespace EnvFiles

/-- How a workspace stood, and what its pass found. -/
structure Reconciliation where
  comparison : Comparison
  outcome : PassOutcome := {}
  deriving DecidableEq, Repr, Inhabited

variable {σ : Type}

/-- Run a pass at the desk of a run. -/
def Run.ofPass {α : Type} (values : Table Text Text) (pass : Resolving α) : Run σ α :=
  Run.atDesk (DeskStep.ofPass values pass)

/-- Compare a workspace with its schema and resolve its missing variables, except those whose
names are to be left out. -/
def reconcileWorkspace (store : Store σ) (registry : Registry) (options : RunOptions)
    (workspace : Workspace) (sharedValues : Option (Table Text Text) := none)
    (sharedNames : List Text := []) (leftOut : List Text := []) : Run σ Reconciliation := do
  let schema ← workspaceSchema store registry.patterns options.rootExample workspace
  let file ← readValuesFile store workspace.valuesPath
  let comparison := compare schema file.values workspace sharedValues sharedNames
  let missing := comparison.missing.filter fun definition => !leftOut.contains definition.name
  let outcome ← Run.ofPass file.values
    (resolveMissing registry (options.scope workspace) {} missing)
  return { comparison, outcome }

/-- The reconciliations of several workspaces. -/
structure ReconcileReport where
  reconciliations : List Reconciliation := []
  totalUpdates : Nat := 0
  warnings : List Text := []
  deriving DecidableEq, Repr, Inhabited

/-- The report with one more workspace. -/
def ReconcileReport.add (report : ReconcileReport) (reconciliation : Reconciliation)
    (written : Nat) : ReconcileReport where
  reconciliations := report.reconciliations ++ [reconciliation]
  totalUpdates := report.totalUpdates + written
  warnings := report.warnings ++ reconciliation.outcome.warnings

/-- Reconcile one workspace and write its updates, unless nothing is to be written. -/
def reconcileAndWrite (store : Store σ) (registry : Registry) (options : RunOptions)
    (writing : Bool) (workspace : Workspace) : Run σ (Reconciliation × Nat) := do
  let reconciliation ← reconcileWorkspace store registry options workspace
  if !writing || reconciliation.outcome.updates.isEmpty then return (reconciliation, 0)
  else
    let schema ← workspaceSchema store registry.patterns options.rootExample workspace
    let applied ← applyUpdates store workspace.valuesPath reconciliation.outcome.updates schema
    return (reconciliation, applied.length)

/-- Reconcile workspaces in order, given the report on those before them. -/
def reconcileFrom (store : Store σ) (registry : Registry) (options : RunOptions)
    (writing : Bool) : ReconcileReport → List Workspace → Run σ ReconcileReport
  | report, [] => pure report
  | report, workspace :: rest => do
    let (reconciliation, written) ←
      reconcileAndWrite store registry options writing workspace
    reconcileFrom store registry options writing (report.add reconciliation written) rest

/-- Reconcile workspaces one after another and write their updates. -/
def reconcileAll (store : Store σ) (registry : Registry) (options : RunOptions)
    (workspaces : List Workspace) (writing : Bool := true) : Run σ ReconcileReport :=
  reconcileFrom store registry options writing {} workspaces

end EnvFiles

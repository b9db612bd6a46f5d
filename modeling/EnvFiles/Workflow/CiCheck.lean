import EnvFiles.Ci
import EnvFiles.Workflow.Files

/-!
# Checking the environment of a continuous-integration run

The effective schema of each workspace is compared with the variables of the process. Variables
whose directive kind is configured to be skipped are listed but not checked. When the skip
variable is set nothing is checked.
-/

namespace EnvFiles

/-- How the variables of one workspace stand in the environment. -/
structure CiSection where
  workspace : Text
  present : List Text := []
  missingRequired : List Text := []
  missingOptional : List Text := []
  skipped : List Text := []
  deriving DecidableEq, Repr, Inhabited

/-- The number of variables that were checked. -/
def CiSection.checked (part : CiSection) : Nat :=
  part.present.length + part.missingRequired.length + part.missingOptional.length

/-- The outcome of a check. -/
structure CiReport where
  skipped : Bool := false
  platform : Option Text := none
  sections : List CiSection := []
  deriving DecidableEq, Repr, Inhabited

/-- Whether no required variable is missing. -/
def CiReport.ok (report : CiReport) : Bool :=
  report.sections.all fun part => part.missingRequired.isEmpty

/-- Compare a schema with the environment. -/
def ciSection (schema : List Definition) (environ : Table Text Text) (skipKinds : List Text)
    (workspace : Text) : CiSection :=
  let active := schema.filter fun definition => definition.requirement ≠ .deprecated
  let checked := active.filter fun definition => !skipKinds.contains definition.directive.kind
  let missing := checked.filter fun definition => !environ.fills definition.name
  { workspace
    present := (checked.filter fun definition => environ.fills definition.name).map Definition.name
    missingRequired := (missing.filter Definition.isRequired).map Definition.name
    missingOptional :=
      (missing.filter fun definition => !definition.isRequired).map Definition.name
    skipped := (active.filter fun definition =>
      skipKinds.contains definition.directive.kind).map Definition.name }

variable {σ : Type}

/-- Compare workspaces with the environment, in order. -/
def ciSections (store : Store σ) (registry : Registry) (options : RunOptions)
    (environ : Table Text Text) : List Workspace → Run σ (List CiSection)
  | [] => pure []
  | workspace :: rest => do
    let schema ← workspaceSchema store registry.patterns options.rootExample workspace
    let part := ciSection schema environ options.config.ci.skipDirectives workspace.name
    return part :: (← ciSections store registry options environ rest)

/-- Check workspaces against an environment. -/
def ciCheck (store : Store σ) (registry : Registry) (options : RunOptions)
    (environ : Table Text Text) (workspaces : List Workspace) : Run σ CiReport :=
  if shouldSkip options.config environ then pure { skipped := true }
  else do
    return { platform := detectedPlatform options.config environ
             sections := ← ciSections store registry options environ workspaces }

end EnvFiles

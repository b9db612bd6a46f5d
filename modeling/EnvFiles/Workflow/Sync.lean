import EnvFiles.Canonical
import EnvFiles.Store.Rehearsal
import EnvFiles.Workflow.Reconcile

/-!
# Syncing workspaces

The variables that the root's example file declares are shared. A shared variable is resolved
once: a value that a workspace already has is taken, otherwise it is resolved in the name of the
first workspace. Its value is written to the root's values file and to every workspace that lacks
it. A workspace that declares a shared name in its own example file owns that name: shared
values do not reach it, and its own values are not shared. The other variables of a workspace,
and those it owns, are resolved for it alone.
-/

namespace EnvFiles

/-- What a sync did. -/
structure SyncReport where
  results : List Comparison := []
  added : Nat := 0
  skippedRequired : List Text := []
  skippedOptional : List Text := []
  warnings : List Text := []
  /-- What a rehearsal would have written. -/
  pending : Table Path Text := []
  deriving DecidableEq, Repr, Inhabited

/-- Whether no required variable was skipped. -/
def SyncReport.ok (report : SyncReport) : Bool := report.skippedRequired.isEmpty

/-- The report with what a pass skipped and warned of. -/
def SyncReport.addPass (report : SyncReport) (outcome : PassOutcome) : SyncReport :=
  { report with
    skippedRequired := report.skippedRequired ++ outcome.skippedRequired
    skippedOptional := report.skippedOptional ++ outcome.skippedOptional
    warnings := report.warnings ++ outcome.warnings }

/-- A workspace with the names it owns. -/
structure Member where
  workspace : Workspace
  own : List Text := []
  deriving DecidableEq, Repr, Inhabited

/-- Whether the workspace owns a name. -/
def Member.owns (member : Member) (name : Text) : Bool := member.own.contains name

/-- The first value that is not empty of every name, in the order of the members; a value of a
name that its workspace owns does not count. -/
def firstValues (holdings : List (Member × Table Text Text)) : Table Text Text :=
  holdings.foldl (fun found holding =>
    holding.2.foldl (fun found entry =>
      if entry.2.isEmpty || holding.1.owns entry.1 || found.has entry.1 then found
      else found.put entry.1 entry.2) found) []

/-- The entries whose names have no value, or an empty one, among the given values. -/
def lackedBy (values entries : Table Text Text) : Table Text Text :=
  entries.filter fun entry => !values.fills entry.1

/-- The pass over the shared variables: what was there, and what the pass found. -/
structure SharedPass where
  existing : Table Text Text
  comparison : Comparison
  outcome : PassOutcome := {}
  deriving DecidableEq, Repr, Inhabited

namespace SharedPass

/-- The definitions whose resolved value is not empty. -/
def found (pass : SharedPass) : List Definition :=
  pass.comparison.missing.filter fun definition => pass.outcome.updates.fills definition.name

/-- The definitions that were resolved to an empty value. -/
def foundEmpty (pass : SharedPass) : List Definition :=
  pass.comparison.missing.filter fun definition =>
    pass.outcome.updates.has definition.name && !pass.outcome.updates.fills definition.name

/-- The value that a shared name has after the pass. -/
def value? (pass : SharedPass) (name : Text) : Option Text :=
  if pass.found.any fun definition => definition.name == name then
    pass.outcome.updates.get? name
  else if pass.comparison.valid.any fun definition => definition.name == name then
    pass.existing.get? name
  else none

/-- The values to distribute, in the order of the shared names. -/
def values (pass : SharedPass) (sharedNames : List Text) : Table Text Text :=
  Table.ofEntries (sharedNames.filterMap fun name =>
    (pass.value? name).map fun value => (name, value))

/-- What the pass adds to the report: an empty value counts as skipped. -/
def report (pass : SharedPass) : SyncReport :=
  let report := SyncReport.addPass {} pass.outcome
  let required := pass.foundEmpty.filter Definition.isRequired
  let others := pass.foundEmpty.filter fun definition => !definition.isRequired
  { report with
    added := pass.found.length
    skippedRequired := report.skippedRequired ++ required.map Definition.name
    skippedOptional := report.skippedOptional ++ others.map Definition.name }

end SharedPass

variable {σ : Type}

/-- The values of several files. -/
def readAllValues (store : Store σ) : List Path → Run σ (List (Table Text Text))
  | [] => pure []
  | path :: rest => do
    let file ← readValuesFile store path
    return file.values :: (← readAllValues store rest)

/-- The workspaces with the names they own. -/
def readMembers (store : Store σ) (patterns : List DirectivePattern) (rootExample : Path) :
    List Workspace → Run σ (List Member)
  | [] => pure []
  | workspace :: rest => do
    let own ← if workspace.examplePath = rootExample then pure []
      else Schema.names <$> readExampleFile store patterns workspace.examplePath
    return ⟨workspace, own⟩ :: (← readMembers store patterns rootExample rest)

/-- Resolve the shared variables that no member has, in the name of the first workspace. -/
def resolveShared (store : Store σ) (registry : Registry) (options : RunOptions)
    (first : Workspace) (members : List Member) (rootSchema : List Definition) :
    Run σ SharedPass := do
  let held ← readAllValues store (members.map fun member => member.workspace.valuesPath)
  let existing := firstValues (members.zip held)
  let comparison := compare rootSchema existing first
  let outcome ← Run.ofPass existing
    (resolveMissing registry (options.scope first true) {} comparison.missing)
  return { existing, comparison, outcome }

/-- Write the values that a file lacks. -/
def fillFile (store : Store σ) (path : Path) (values : Table Text Text)
    (schema : List Definition) : Run σ Unit := do
  let file ← readValuesFile store path
  discard (applyUpdates store path (lackedBy file.values values) schema)

/-- Write shared values to the members that lack them and do not own their names. -/
def fillMembers (store : Store σ) (registry : Registry) (options : RunOptions)
    (values : Table Text Text) : List Member → Run σ Unit
  | [] => pure ()
  | member :: rest => do
    let schema ← workspaceSchema store registry.patterns options.rootExample member.workspace
    fillFile store member.workspace.valuesPath
      (values.filter fun entry => !member.owns entry.1) schema
    fillMembers store registry options values rest

/-- Resolve the shared variables and distribute their values. -/
def syncShared (store : Store σ) (registry : Registry) (options : RunOptions)
    (first : Workspace) (members : List Member) (rootSchema : Schema) : Run σ SyncReport := do
  if rootSchema.definitions.isEmpty then return {}
  else
    let pass ← resolveShared store registry options first members rootSchema.definitions
    let values := pass.values rootSchema.names
    fillFile store options.rootValues values rootSchema.definitions
    fillMembers store registry options values members
    return pass.report

/-- Resolve the variables of one member and write them. -/
def syncMember (store : Store σ) (registry : Registry) (options : RunOptions)
    (sharedValues : Table Text Text) (sharedNames : List Text) (report : SyncReport)
    (member : Member) : Run σ SyncReport := do
  let workspace := member.workspace
  let reconciliation ← reconcileWorkspace store registry options workspace (some sharedValues)
    sharedNames (sharedNames.filter fun name => !member.owns name)
  let schema ← workspaceSchema store registry.patterns options.rootExample workspace
  let applied ← applyUpdates store workspace.valuesPath reconciliation.outcome.updates schema
  let file ← readValuesFile store workspace.valuesPath
  let result := compare schema file.values workspace (some sharedValues) sharedNames
  let report := report.addPass reconciliation.outcome
  return { report with
    added := report.added + applied.length
    results := report.results ++ [result] }

/-- Resolve the variables of the members in order. -/
def syncMembers (store : Store σ) (registry : Registry) (options : RunOptions)
    (sharedValues : Table Text Text) (sharedNames : List Text) :
    SyncReport → List Member → Run σ SyncReport
  | report, [] => pure report
  | report, member :: rest => do
    let report ← syncMember store registry options sharedValues sharedNames report member
    syncMembers store registry options sharedValues sharedNames report rest

/-- Sync workspaces in a store. The canonical shared values, against which overrides are
measured, come from the population. -/
def syncIn (store : Store σ) (registry : Registry) (options : RunOptions)
    (workspaces population : List Workspace) : Run σ SyncReport :=
  match workspaces with
  | [] => pure {}
  | first :: _ => do
    Run.atDesk (registry.beforeSync workspaces)
    let rootSchema ← readExampleFile store registry.patterns options.rootExample
    let held ← readAllValues store (population.map Workspace.valuesPath)
    let sharedValues := canonicalValues rootSchema.names held
    let members ← readMembers store registry.patterns options.rootExample workspaces
    let report ← syncShared store registry options first members rootSchema
    let report ← syncMembers store registry options sharedValues rootSchema.names report members
    Run.atDesk (registry.afterSync report.results)
    return report

/-- Sync workspaces. The population is the workspaces themselves unless it is given. A rehearsal
writes nothing and reports what it would have written. -/
def sync (store : Store σ) (registry : Registry) (options : RunOptions)
    (workspaces : List Workspace) (population : Option (List Workspace) := none)
    (rehearsal : Bool := false) : Run σ SyncReport :=
  let population := population.getD workspaces
  if rehearsal then do
    let (report, pending) ←
      Run.rehearse (syncIn store.rehearsed registry options workspaces population)
    return { report with pending }
  else syncIn store registry options workspaces population

end EnvFiles

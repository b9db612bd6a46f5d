import EnvFiles.Comparison
import EnvFiles.Example
import EnvFiles.Plugin.Registry
import EnvFiles.Store.Basic
import EnvFiles.Values.Rewrite

/-!
# Example and values files in a store

The files of a run are read through a store. A missing example file declares nothing and a
missing values file holds nothing. The effective schema of a workspace is the schema of the root
overridden by its own. Updates to a values file are written at once, and only if they change a
value.
-/

namespace EnvFiles

/-- What all workspaces of a run have in common. -/
structure RunOptions where
  config : Config := {}
  root : Path := []
  interactive : Bool := false
  environ : Table Text Text := []
  deriving Repr, Inhabited

namespace RunOptions

/-- The example file of the root. -/
def rootExample (options : RunOptions) : Path :=
  Path.join options.root options.config.project.exampleName

/-- The values file of the root. -/
def rootValues (options : RunOptions) : Path :=
  Path.join options.root options.config.project.valuesName

/-- The scope of a pass over a workspace, or over the shared variables for which it stands. -/
def scope (options : RunOptions) (workspace : Workspace) (shared : Bool := false) : Scope where
  workspace
  shared
  interactive := options.interactive
  config := options.config
  root := options.root
  environ := options.environ

end RunOptions

variable {σ : Type}

/-- Read an example file. -/
def readExampleFile (store : Store σ) (patterns : List DirectivePattern) (path : Path) :
    Run σ Schema := do
  match ← Run.read store path with
  | none => return { sourcePath := path.written }
  | some text => Run.ofExcept (readExample patterns text path.written)

/-- Read a values file. -/
def readValuesFile (store : Store σ) (path : Path) : Run σ ValuesFile := do
  return readValues ((← Run.read store path).getD [])

/-- The effective schema of a workspace. -/
def workspaceSchema (store : Store σ) (patterns : List DirectivePattern) (rootExample : Path)
    (workspace : Workspace) : Run σ (List Definition) := do
  let shared ← readExampleFile store patterns rootExample
  if workspace.examplePath = rootExample then return shared.definitions
  else
    let specific ← readExampleFile store patterns workspace.examplePath
    return mergeDefinitions shared.definitions specific.definitions

/-- The updates that change a value. -/
def changesTo (values updates : Table Text Text) : Table Text Text :=
  updates.filter fun entry => values.get? entry.1 != some entry.2

/-- Update a values file and tell what changed. -/
def applyUpdates (store : Store σ) (path : Path) (updates : Table Text Text)
    (schema : List Definition) : Run σ (Table Text Text) := do
  let file ← readValuesFile store path
  let changes := changesTo file.values updates
  if changes.isEmpty then return changes
  else
    Run.write store path (rewriteValues file changes schema)
    return changes

end EnvFiles

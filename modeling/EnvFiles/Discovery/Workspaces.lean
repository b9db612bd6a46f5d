import EnvFiles.Comparison
import EnvFiles.Discovery.Patterns
import EnvFiles.Tree.Glob

/-!
# Finding workspaces

A folder is a workspace when a pattern leads to it and it holds a package file. It is found once,
however many patterns lead to it. A project without workspaces that does not claim to have any is
its own single workspace, if it has an example file. Workspaces come in the order of their names,
those of one name in the order in which they were found.
-/

namespace EnvFiles

/-- The paths of the example file and the values file of a folder. -/
def envPaths (config : Config) (folder : Path) : Path × Path :=
  (Path.join folder config.project.exampleName, Path.join folder config.project.valuesName)

/-- The workspace in a folder. -/
def workspaceAt (config : Config) (folder : Path) : Workspace :=
  let (examplePath, valuesPath) := envPaths config folder
  { name := if folder.name.isEmpty then "root" else folder.name
    path := folder, examplePath, valuesPath }

/-- Whether a folder is a package. -/
def isPackage (root : Node) (folder : Path) : Bool :=
  root.hasFolder folder && root.hasFile (folder ++ [packageFileName])

/-- The packages that a pattern leads to. -/
def packagesUnder (root : Node) (project : Path) (pattern : Text) : Except Failure (List Path) :=
  (Glob.ofText pattern).map fun glob => (glob.paths root project).filter (isPackage root)

/-- The packages that patterns lead to, each once. -/
def packagesFound (root : Node) (project : Path) (patterns : List Text) :
    Except Failure (List Path) :=
  (patterns.mapM (packagesUnder root project)).map fun found => firstOccurrences found.flatten

/-- The patterns of a project: the configured ones, or else those detected. -/
def projectPatterns (config : Config) (root : Node) (project : Path) : DeskStep (List Text) :=
  let settings := config.project.workspaces
  if settings.patterns.isEmpty then detectPatterns root project settings.detection
  else pure settings.patterns

/-- Workspaces in the order of their names. -/
def byName (workspaces : List Workspace) : List Workspace :=
  workspaces.mergeSort fun a b => Text.precedes a.name b.name

/-- The project as its own workspace, if it is one. -/
def singleWorkspace (config : Config) (root : Node) (project : Path) :
    DeskStep (List Workspace) := do
  if ← isMonorepo root project then return []
  let single := workspaceAt config project
  return if root.has single.examplePath then [single] else []

/-- The workspaces of a project. -/
def discoverWorkspaces (config : Config) (root : Node) (project : Path) :
    DeskStep (List Workspace) := do
  let patterns ← projectPatterns config root project
  let found ← MonadExcept.ofExcept (packagesFound root project patterns)
  if found.isEmpty then singleWorkspace config root project
  else return byName (found.map (workspaceAt config))

/-- The first workspace of a name. -/
def findWorkspace (config : Config) (root : Node) (project : Path) (name : Text) :
    DeskStep (Option Workspace) := do
  return (← discoverWorkspaces config root project).find? fun workspace => workspace.name == name

/-- The first of some workspaces that holds a path without links. -/
def firstAround (root : Node) (current : Path) : List Workspace → Except Failure (Option Workspace)
  | [] => .ok none
  | workspace :: rest => do
    let folder ← root.resolve workspace.path
    if (Path.below? folder current).isSome then return some workspace
    firstAround root current rest

/-- The workspace that a folder belongs to. -/
def currentWorkspace (config : Config) (root : Node) (project folder : Path) :
    DeskStep (Option Workspace) := do
  let current ← MonadExcept.ofExcept (root.resolve folder)
  MonadExcept.ofExcept
    (firstAround root current (← discoverWorkspaces config root project))

end EnvFiles

import EnvFiles.Config.Basic
import EnvFiles.Data.Json
import EnvFiles.Data.Yaml
import EnvFiles.Desk
import EnvFiles.Tree.Walk

/-!
# Where a project says that its workspaces are

A project can list its workspaces in the file of its package manager. A file that does not follow
its format is noted and counts as absent; so does one that is not a mapping. A value that stands
where a list of patterns is expected is read as one as far as it has members: the characters of a
text, the keys of a mapping.
-/

namespace EnvFiles

/-- The name of the file that makes a folder a package. -/
def packageFileName : Text := "package.json"

/-- The name of the file in which one package manager lists workspaces. -/
def workspaceFileName : Text := "pnpm-workspace.yaml"

/-- The name of a file that marks a project with several workspaces. -/
def markerFileName : Text := "lerna.json"

/-- The entries of a file that should hold a mapping; an empty list if it does not. -/
def mappingIn (format : DataFormat) (read : Text → ReadResult Data) (root : Node) (path : Path) :
    DeskStep (List (Data × Data)) := do
  if !root.hasFile path then return []
  let text ← MonadExcept.ofExcept (root.readText path)
  match (read text).map Data.opened with
  | .error .malformed => do
    DeskStep.note (.unparsable path format)
    return []
  | .error (.noValue fault) => throw (.noValue fault)
  | .error .tooLarge => throw .numberTooLarge
  | .error .tooDeep => throw .nestedTooDeep
  | .ok (.mapping entries) => return entries
  | .ok _ => return []

/-- The members of a value that stands where a list is expected. -/
def Data.members (data : Data) : Except Failure (List Data) :=
  match data.opened with
  | .list items => .ok items
  | .mapping entries => .ok (entries.map Prod.fst)
  | .text characters => .ok (characters.map fun c => .text [c])
  | .halvedText codes => .ok (codes.map fun code => .ofCodes [code])
  | other => .error (.notAList other.fullTypeName)

/-- The patterns that a value lists; a value that counts as nothing lists none. -/
def patternsIn (value : Option Data) : Except Failure (List Text) :=
  match value with
  | none => .ok []
  | some value => if value.isNothing then .ok [] else value.members.map (List.map Data.asText)

/-- The patterns in the workspace file of a project. -/
def workspaceFilePatterns (root : Node) (project : Path) : DeskStep (List Text) := do
  let entries ← mappingIn .yaml Yaml.read root (project ++ [workspaceFileName])
  MonadExcept.ofExcept (patternsIn (Data.lookup? "packages" entries))

/-- What the package file of a project says about workspaces. -/
def packageWorkspaces (root : Node) (project : Path) : DeskStep (Option Data) := do
  return Data.lookup? "workspaces" (← mappingIn .json Json.read root (project ++ [packageFileName]))

/-- Whether a project has several workspaces. -/
def isMonorepo (root : Node) (project : Path) : DeskStep Bool := do
  if root.has (project ++ [workspaceFileName]) || root.has (project ++ [markerFileName]) then
    return true
  match ← packageWorkspaces root project with
  | none => return false
  | some value => return !value.isNothing

/-- The patterns in the package file: a list by itself, or under a key of its own. Nothing if the
file gives no patterns. -/
def packagePatterns? : Option Data → Except Failure (Option (List Text))
  | some (.list items) => .ok (some (items.map Data.asText))
  | some (.mapping entries) =>
    match Data.lookup? "packages" entries with
    | none => .ok none
    | some value => if value.isNothing then .ok none else (patternsIn (some value)).map some
  | _ => .ok none

/-- Whether a way of detection reads the workspace file. -/
def Detection.readsWorkspaceFile : Detection → Bool
  | .auto => true
  | .pnpm => true
  | _ => false

/-- Whether a way of detection reads the package file. -/
def Detection.readsPackageFile : Detection → Bool
  | .auto => true
  | .npm => true
  | .yarn => true
  | _ => false

/-- The patterns that the package file gives, or else the usual ones. -/
def packageFilePatterns (root : Node) (project : Path) : DeskStep (List Text) := do
  let patterns ← MonadExcept.ofExcept (packagePatterns? (← packageWorkspaces root project))
  return patterns.getD usualPatterns

/-- The patterns of a project's workspaces. -/
def detectPatterns (root : Node) (project : Path) (detection : Detection) :
    DeskStep (List Text) := do
  if detection = .manual then return []
  let listed ← if detection.readsWorkspaceFile then workspaceFilePatterns root project
    else pure []
  if !listed.isEmpty then return listed
  if detection.readsPackageFile then packageFilePatterns root project
  else return usualPatterns

end EnvFiles

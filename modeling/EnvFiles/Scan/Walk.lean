import EnvFiles.Config.Basic
import EnvFiles.Desk
import EnvFiles.Scan.Result
import EnvFiles.Tree.Walk

/-!
# Scanning source trees

A scan walks a folder depth first, entries by name. Links are passed over, and so are folders
that are hidden or configured to be skipped. A file is scanned when its suffix is configured,
unless it configures this tool. A file that is not UTF-8 text is noted and passed over. Places
are given relative to a base.
-/

namespace EnvFiles

/-- The names of files that configure this tool in a programming language. They mention
variables without using them. -/
def ownConfigFiles : List Text :=
  ["env-vars-doctor.config.js", "env-vars-doctor.config.ts", "env-vars-doctor.config.mjs",
    "env-vars-doctor.config.cjs"]

/-- Whether a file of the given name is scanned. -/
def ScanSettings.takes (settings : ScanSettings) (name : Text) : Bool :=
  settings.extensions.contains (Path.suffixOfName name) && !ownConfigFiles.contains name

/-- Whether a folder of the given name is entered. -/
def ScanSettings.enters (settings : ScanSettings) (name : Text) : Bool :=
  !settings.skipDirs.contains name && name.head? != some '.'

/-- A source file: its path and its bytes. -/
abbrev SourceFile := Path × ByteArray

/-- Named groups of files in the order of their names, taken together. -/
def inNameOrder (groups : List (Text × List SourceFile)) : List SourceFile :=
  (groups.mergeSort fun a b => Text.precedes a.1 b.1).flatMap Prod.snd

mutual

/-- The files to scan below a folder that is reached by the given path. -/
def filesBelow (settings : ScanSettings) (reached : Path) : Node → List SourceFile
  | .folder entries => inNameOrder (filesOfEntries settings reached entries)
  | _ => []

/-- The files to scan at each entry of a folder. -/
def filesOfEntries (settings : ScanSettings) (reached : Path) :
    List (Text × Node) → List (Text × List SourceFile)
  | [] => []
  | (name, node) :: rest =>
    let here := reached ++ [name]
    let found := if node.isFolder then
        if settings.enters name then filesBelow settings here node else []
      else match node with
        | .file content => if settings.takes name then [(here, content)] else []
        | _ => []
    (name, found) :: filesOfEntries settings reached rest

end

/-- Scan one file. -/
def scanFile (base : Path) (file : SourceFile) : DeskStep ScanResult :=
  match Node.decode file.2 with
  | .error _ => do
    DeskStep.note (.fileSkipped file.1)
    return {}
  | .ok text =>
    match Path.below? base file.1 with
    | none => throw .outsideBase
    | some parts => pure (scanText (Text.join "/" parts) (Text.unifyNewlines text))

/-- Scan files in order, given the findings in those before them. -/
def scanFiles (base : Path) : ScanResult → List SourceFile → DeskStep ScanResult
  | found, [] => pure found
  | found, file :: rest => do
    let result ← scanFile base file
    scanFiles base (found.append result) rest

/-- The files to scan below the folder that a path leads to, if it does. -/
def filesUnder (settings : ScanSettings) (root : Node) (path : Path) : List SourceFile :=
  match root.lookup? path with
  | some node => filesBelow settings path node
  | none => []

/-- Scan a folder. -/
def scan (settings : ScanSettings) (root : Node) (path : Path) (base : Path := path) :
    DeskStep ScanResult :=
  scanFiles base {} (filesUnder settings root path)

/-- The files to scan that stand directly in a folder; links to files count. -/
def filesIn (settings : ScanSettings) (root : Node) (path : Path) : List SourceFile :=
  (root.listing path).filterMap fun (name, _) =>
    match root.lookup? (path ++ [name]) with
    | some (.file content) => if settings.takes name then some (path ++ [name], content) else none
    | _ => none

/-- Scan the source folder of a workspace, and the files directly in the workspace. -/
def scanWorkspace (config : Config) (root : Node) (workspace : Path) : DeskStep ScanResult :=
  let source := Path.join workspace config.project.workspaces.sourceDir
  scanFiles workspace {} (filesUnder config.scanning root source ++
    filesIn config.scanning root workspace)

/-- The folders of packages that the configured patterns start with. -/
def packageFolders (config : Config) (path : Path) : List Path :=
  let configured := config.project.workspaces.patterns
  let patterns := if configured.isEmpty then usualPatterns else configured
  firstOccurrences ((patterns.filter fun pattern =>
    (Text.dropStart? "packages" pattern).isSome).map fun pattern =>
      Path.join path (pattern.takeWhile (· != '/')))

/-- Scan packages in order, each relative to itself. -/
def scanPackages (config : Config) (root : Node) : ScanResult → List Path → DeskStep ScanResult
  | found, [] => pure found
  | found, package :: rest => do
    let source := Path.join package config.project.workspaces.sourceDir
    let files := if root.hasFolder package then filesUnder config.scanning root source else []
    scanPackages config root (← scanFiles package found files) rest

/-- Scan the source folders of all shared packages. -/
def scanAllPackages (config : Config) (root : Node) (path : Path) : DeskStep ScanResult :=
  scanPackages config root {} ((packageFolders config path).flatMap fun folder =>
    (root.listing folder).map fun entry => folder ++ [entry.1])

end EnvFiles

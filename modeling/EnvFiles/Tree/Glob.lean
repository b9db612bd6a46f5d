import EnvFiles.Tree.NamePattern
import EnvFiles.Tree.Walk

/-!
# Patterns for paths

A pattern for paths is a list of parts below a folder: names, patterns for names, and `**`, which
stands for the folder reached and all folders below it that no link leads to. Every part but the
last one must lead to a folder; a slash at the end asks the same of the last one.
-/

namespace EnvFiles

/-- One part of a pattern for paths. -/
inductive GlobPart
  | name (name : Text)
  | names (pattern : NamePattern)
  | anyDepth
  deriving DecidableEq, Repr, Inhabited

/-- A pattern for paths. -/
structure Glob where
  parts : List GlobPart
  foldersOnly : Bool := false
  deriving DecidableEq, Repr, Inhabited

/-- The part that stands for folders of any depth. -/
def anyDepthPart : Text := ['*', '*']

/-- The part of a pattern that a component stands for. -/
def GlobPart.ofText (text : Text) : Except Failure GlobPart :=
  if text = anyDepthPart then .ok .anyDepth
  else if (Text.firstMatch (Text.dropStart? anyDepthPart) text).isSome then .error .misplacedDoubleStar
  else if NamePattern.isPattern text then .ok (.names (NamePattern.ofText text))
  else .ok (.name text)

namespace Glob

/-- The pattern that a text stands for. -/
def ofText (text : Text) : Except Failure Glob :=
  let foldersOnly := text.getLast? = some '/'
  if text.isEmpty then .error .emptyPattern
  else if text.head? = some '/' then .error .absolutePattern
  else match Path.components text with
    | [] => .error (if foldersOnly then .bareSeparatorPattern else .currentDirectoryPattern)
    | components => (components.mapM GlobPart.ofText).map fun parts => { parts, foldersOnly }

/-- The paths that a part leads to from a folder. -/
def step (root : Node) (folder : Path) : GlobPart → List Path
  | .name name => if root.has (folder ++ [name]) then [folder ++ [name]] else []
  | .names pattern =>
    ((root.listing folder).filter fun entry => pattern.covers entry.1).map fun entry =>
      folder ++ [entry.1]
  | .anyDepth => match root.lookup? folder with
    | some node => node.folders.map fun place => folder ++ place
    | none => []

/-- The paths that parts lead to from a folder, each once. -/
def reach (root : Node) (foldersOnly : Bool) : List GlobPart → Path → List Path
  | [], path => [path]
  | part :: rest, folder =>
    let reached := (step root folder part).filter fun path =>
      !(foldersOnly || !rest.isEmpty) || root.hasFolder path
    firstOccurrences (reached.flatMap (reach root foldersOnly rest))

/-- The paths below a folder that a pattern stands for, in order. -/
def paths (glob : Glob) (root : Node) (folder : Path) : List Path :=
  if root.hasFolder folder then
    (reach root glob.foldersOnly glob.parts folder).mergeSort Path.precedes
  else []

end Glob
end EnvFiles

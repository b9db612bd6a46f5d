import EnvFiles.Tree.Change

/-!
# Building and comparing file trees

A tree is built by placing files, links and empty folders one after another. Two trees differ in
the files that one has and the other lacks or holds with other bytes.
-/

namespace EnvFiles.Node

/-- The tree with a node placed where a path leads, the folders above it made. A file is written
through links, and a folder is only made. A path that cannot be followed changes no more than
its folders. -/
def place (root : Node) (path : Path) (node : Node) : Node :=
  let root := (root.ensureFolders path.parent.reverse).2
  match node with
  | .file content =>
    match root.putFile path content with
    | .ok after => after
    | .error _ => root
  | .link _ =>
    match root.walkToLink path with
    | .ok (.taken place _) => putAt node place root
    | .ok (.vacant above name) => putAt node (above ++ [name]) root
    | .error _ => root
  | .folder _ => (root.ensureFolders path.reverse).2

/-- The tree of entries placed in order. -/
def ofEntries (entries : List (Path × Node)) : Node :=
  entries.foldl (fun root entry => root.place entry.1 entry.2) (.folder [])

/-- The files of the later tree that the earlier one lacks or holds with other bytes. -/
def changedFiles (before after : Node) : List (Path × ByteArray) :=
  after.files.filter fun file => !before.files.contains file

/-- The paths of files of the earlier tree that the later one lacks. -/
def deletedFiles (before after : Node) : List Path :=
  (before.files.map Prod.fst).filter fun path => !(after.files.map Prod.fst).contains path

end EnvFiles.Node

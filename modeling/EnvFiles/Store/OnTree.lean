import EnvFiles.Store.Basic
import EnvFiles.Tree.Change

/-!
# The store on a file tree

Example and values files are UTF-8 files of a tree. Reading turns all line ends into line feeds,
writing leaves them as they are and makes the folders it needs.
-/

namespace EnvFiles

/-- The text of a file; nothing when the path does not lead to a file. -/
def readFile (root : Node) (path : Path) : Except Failure (Option Text) :=
  if root.hasFile path then (root.readText path).map some else .ok none

/-- The store on a file tree. -/
def treeStore : Store Node where
  read path root := ⟨readFile root path, root, []⟩
  write path text root :=
    let (answer, root) := root.write path text
    ⟨answer, root, []⟩
  delete path root :=
    let (answer, root) := root.delete path
    ⟨answer, root, []⟩
  holds path root := root.hasFile path

end EnvFiles

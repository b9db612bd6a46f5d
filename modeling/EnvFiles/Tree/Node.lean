import EnvFiles.Path
import EnvFiles.Table

/-!
# File trees

A tree is a file with its bytes, a link with the path it stands for, or a folder with named
entries. This module looks at the tree as it is written down, without following links: a place
is found by its names from the top.
-/

namespace EnvFiles

/-- A file tree. -/
inductive Node
  | file (content : ByteArray)
  | link (target : Text)
  | folder (entries : List (Text × Node))
  deriving Inhabited

namespace Node

/-- The entry of a name in a list of entries. -/
def named? : List (Text × Node) → Text → Option Node
  | [], _ => none
  | (other, node) :: rest, name => if other = name then some node else named? rest name

/-- The entry of a name, when the node is a folder. -/
def child? : Node → Text → Option Node
  | .folder entries, name => named? entries name
  | _, _ => none

/-- What stands at a place. -/
def at? : Node → Path → Option Node
  | node, [] => some node
  | node, name :: rest => match node.child? name with
    | some child => child.at? rest
    | none => none

/-- Whether the node is a folder. -/
def isFolder : Node → Bool
  | .folder _ => true
  | _ => false

/-- Whether the node is a file. -/
def isFile : Node → Bool
  | .file _ => true
  | _ => false

/-- Whether the node is a link. -/
def isLink : Node → Bool
  | .link _ => true
  | _ => false

/-- The tree with a node put at a place below folders. -/
def putAt (node : Node) : Path → Node → Node
  | [], _ => node
  | name :: rest, .folder entries =>
    let child := (named? entries name).getD (.folder [])
    .folder (upsert Prod.fst (name, putAt node rest child) entries)
  | _ :: _, other => other

/-- The tree without what stands at a place. -/
def removeAt : Path → Node → Node
  | [name], .folder entries => .folder (entries.filter fun entry => entry.1 != name)
  | name :: rest, .folder entries =>
    match named? entries name with
    | some child => .folder (upsert Prod.fst (name, removeAt rest child) entries)
    | none => .folder entries
  | _, other => other

mutual

/-- The files of a tree with their places and bytes. -/
def files : Node → List (Path × ByteArray)
  | .file content => [([], content)]
  | .link _ => []
  | .folder entries => filesOf entries

/-- The files below the entries of a folder. -/
def filesOf : List (Text × Node) → List (Path × ByteArray)
  | [] => []
  | (name, node) :: rest =>
    node.files.map (fun found => (name :: found.1, found.2)) ++ filesOf rest

end

mutual

/-- The places of the folders of a tree, itself included. -/
def folders : Node → List Path
  | .folder entries => [] :: foldersOf entries
  | _ => []

/-- The places of the folders below the entries of a folder. -/
def foldersOf : List (Text × Node) → List Path
  | [] => []
  | (name, node) :: rest => node.folders.map (fun found => name :: found) ++ foldersOf rest

end

mutual

/-- The number of links in a tree. -/
def linkCount : Node → Nat
  | .file _ => 0
  | .link _ => 1
  | .folder entries => linkCountOf entries

/-- The number of links below the entries of a folder. -/
def linkCountOf : List (Text × Node) → Nat
  | [] => 0
  | (_, node) :: rest => node.linkCount + linkCountOf rest

end

end Node
end EnvFiles

import EnvFiles.Tree.Walk

/-!
# Changing a file tree

A change gives its outcome and the tree after it, because a change that fails can have made
folders before. Writing goes through links; deleting takes away the link itself.
-/

namespace EnvFiles.Node

/-- Make one folder. -/
def makeFolder (root : Node) (path : Path) : Except Failure Node := do
  checkPath path
  match ← root.walkToLink path with
  | .taken _ _ => throw .alreadyExists
  | .vacant above name => return putAt (.folder []) (above ++ [name]) root

/-- Make one folder whose path is given from its end; it may be there already. -/
def ensureFolder (root : Node) (reversed : Path) : Except Failure Node :=
  match root.makeFolder reversed.reverse with
  | .error .fileMissing => .error .fileMissing
  | .error failure => if root.hasFolder reversed.reverse then .ok root else .error failure
  | .ok root => .ok root

/-- Make a folder and the folders above it, where they are missing. The path is given from its
end. -/
def ensureFolders (root : Node) : (reversed : Path) → Except Failure Unit × Node
  | [] => (.ok (), root)
  | part :: above =>
    match root.ensureFolder (part :: above) with
    | .ok root => (.ok (), root)
    | .error .fileMissing =>
      match ensureFolders root above with
      | (.error failure, root) => (.error failure, root)
      | (.ok _, root) => match root.ensureFolder (part :: above) with
        | .ok root => (.ok (), root)
        | .error failure => (.error failure, root)
    | .error failure => (.error failure, root)

/-- Write a file whose folder exists. -/
def putFile (root : Node) (path : Path) (content : ByteArray) : Except Failure Node := do
  checkPath path
  match ← root.walk path with
  | .taken place (.file _) => return putAt (.file content) place root
  | .taken _ _ => throw .isDirectory
  | .vacant above name => return putAt (.file content) (above ++ [name]) root

/-- Write a file, making the folders above it. -/
def write (root : Node) (path : Path) (text : Text) : Except Failure Unit × Node :=
  match root.ensureFolders path.parent.reverse with
  | (.error failure, root) => (.error failure, root)
  | (.ok _, root) => match root.putFile path (encode text) with
    | .ok root => (.ok (), root)
    | .error failure => (.error failure, root)

/-- Delete a file or a link; a missing one is no failure. -/
def delete (root : Node) (path : Path) : Except Failure Unit × Node :=
  match checkPath path *> root.walkToLink path with
  | .error .fileMissing => (.ok (), root)
  | .error failure => (.error failure, root)
  | .ok (.vacant _ _) => (.ok (), root)
  | .ok (.taken _ (.folder _)) => (.error .isDirectory, root)
  | .ok (.taken place _) => (.ok (), removeAt place root)

end EnvFiles.Node

import EnvFiles.Failure
import EnvFiles.Text.Lines
import EnvFiles.Tree.Node

/-!
# Where paths lead

A path is walked from the top of a tree, component by component. `..` leads to the folder above
the place reached so far, and a link leads on to its target, from the folder that holds it. At
most forty links are followed in one walk. A path whose folders exist but whose last component
does not leads to a vacant place.
-/

namespace EnvFiles

/-- Where a path leads. -/
inductive Place
  /-- To something; the path holds no links but the last component, and no `..`. -/
  | taken (path : Path) (node : Node)
  /-- To a name that a folder does not have. -/
  | vacant (above : Path) (name : Text)

namespace Node

/-- The component that leads to the folder above. -/
def upPart : Text := ['.', '.']

/-- Where the target of a link starts from: the top for an absolute target, otherwise the folder
that holds the link. -/
def linkStart (above : Path) (target : Text) : Path :=
  if target.head? = some '/' then [] else above

/-- Walk on from a place reached, with a given way to go on at a link. The last component is
not followed if it is a link, unless asked for. -/
def walkWith (root : Node) (followLast : Bool) (onLink : Path → Path → Except Failure Place) :
    Path → Path → Except Failure Place
  | reached, [] => match root.at? reached with
    | some node => .ok (.taken reached node)
    | none => .error .fileMissing
  | reached, part :: rest =>
    match root.at? reached with
    | some (.folder entries) =>
      if part = upPart then walkWith root followLast onLink reached.dropLast rest
      else match named? entries part with
        | none => if rest.isEmpty then .ok (.vacant reached part) else .error .fileMissing
        | some (.link target) =>
          if rest.isEmpty && !followLast then .ok (.taken (reached ++ [part]) (.link target))
          else onLink (linkStart reached target) (Path.components target ++ rest)
        | some _ => walkWith root followLast onLink (reached ++ [part]) rest
    | some _ => .error .notDirectory
    | none => .error .fileMissing

/-- Walk on from a place reached, following at most the given number of links. -/
def walkWithin (root : Node) (followLast : Bool) : Nat → Path → Path → Except Failure Place
  | 0 => walkWith root followLast fun _ _ => .error .tooManyLinks
  | links + 1 => walkWith root followLast (walkWithin root followLast links)

/-- The number of links that one walk follows. -/
def linkLimit : Nat := 40

/-- Where a path leads. -/
def walk (root : Node) (path : Path) : Except Failure Place :=
  walkWithin root true linkLimit [] path

/-- Where a path leads when a link at its end is not followed. -/
def walkToLink (root : Node) (path : Path) : Except Failure Place :=
  walkWithin root false linkLimit [] path

/-- Fail for a path that nothing can have. -/
def checkPath (path : Path) : Except Failure Unit :=
  if path.hasNull then .error (.noValue .nullInPath) else .ok ()

/-- What a path leads to, if anything. -/
def lookup? (root : Node) (path : Path) : Option Node :=
  match root.walk path with
  | .ok (.taken _ node) => some node
  | _ => none

/-- Whether a path leads to a file. -/
def hasFile (root : Node) (path : Path) : Bool := (root.lookup? path).any isFile

/-- Whether a path leads to a folder. -/
def hasFolder (root : Node) (path : Path) : Bool := (root.lookup? path).any isFolder

/-- Whether a path leads to anything. -/
def has (root : Node) (path : Path) : Bool := (root.lookup? path).isSome

/-- Whether the last component of a path is a link. -/
def hasLink (root : Node) (path : Path) : Bool :=
  match root.walkToLink path with
  | .ok (.taken _ node) => node.isLink
  | _ => false

/-- The entries of the folder that a path leads to, sorted by name. -/
def listing (root : Node) (path : Path) : List (Text × Node) :=
  match root.lookup? path with
  | some (.folder entries) => entries.mergeSort fun a b => Text.precedes a.1 b.1
  | _ => []

/-- The characters of UTF-8 text. -/
def decode (content : ByteArray) : Except Failure Text :=
  match content.utf8Decode? with
  | some characters => .ok characters.toList
  | none => .error .undecodable

/-- The bytes of UTF-8 text. -/
def encode (text : Text) : ByteArray := (String.ofList text).toUTF8

/-- The text of the file that a path leads to, with line feeds for all line ends. -/
def readText (root : Node) (path : Path) : Except Failure Text := do
  checkPath path
  match ← root.walk path with
  | .vacant _ _ => throw .fileMissing
  | .taken _ (.file content) => return Text.unifyNewlines (← decode content)
  | .taken _ _ => throw .isDirectory

/-- Resolve the links of a path from a place reached. The links being resolved are given; meeting
one of them again ends the resolution, with the rest of the path left as it stands. -/
def resolveWith (root : Node) (onLink : Path → Path → Text → Except Path Path) :
    Path → Path → Except Path Path
  | reached, [] => .ok reached
  | reached, part :: rest =>
    if part = upPart then resolveWith root onLink reached.dropLast rest
    else
      let next := reached ++ [part]
      match root.at? next with
      | some (.link target) =>
        match onLink next reached target with
        | .ok path => resolveWith root onLink path rest
        | .error path => .error (path ++ rest)
      | _ => resolveWith root onLink next rest

/-- Resolve the links of a path, inside the resolution of the given links. The number bounds how
many more can be opened. -/
def resolveWithin (root : Node) : Nat → List Path → Path → Path → Except Path Path
  | 0, _ => resolveWith root fun place _ _ => .error place
  | links + 1, opened => resolveWith root fun place above target =>
    if place ∈ opened then .error place
    else resolveWithin root links (place :: opened) (linkStart above target)
      (Path.components target)

/-- A path without `..`, each taking away the component before it. -/
def withoutUp (path : Path) : Path :=
  path.foldl (fun result part => if part = upPart then result.dropLast else result ++ [part]) []

/-- The path without links that a path stands for, whether or not something is there. -/
def resolve (root : Node) (path : Path) : Except Failure Path := do
  checkPath path
  match resolveWithin root (root.linkCount + 1) [] [] path with
  | .ok resolved => return resolved
  | .error left =>
    let resolved := withoutUp left
    match root.walk resolved with
    | .error .tooManyLinks => throw (.endlessLinks resolved)
    | _ => return resolved

end Node
end EnvFiles

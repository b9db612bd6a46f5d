import EnvFiles.Text.Basic

/-!
# Paths

An absolute path is the list of its components from the top directory down. Joining a written
path skips empty and `.` components and keeps `..` as it stands: only the file tree knows
what `..` leads to. Two paths are equal when their components are.
-/

namespace EnvFiles

/-- An absolute path, as its components from the top. -/
abbrev Path := List Text

namespace Path

/-- The components of a written path. -/
def components (text : Text) : List Text :=
  (Text.splitAt '/' text).filter fun part => !part.isEmpty && part != ['.']

/-- The path that a text names from `base`; a leading slash starts from the top. -/
def join (base : Path) (text : Text) : Path :=
  if text.head? = some '/' then components text else base ++ components text

/-- Whether the null character, which no name in a file tree has, stands in a path. -/
def hasNull (path : Path) : Bool := path.any fun part => part.contains '\x00'

/-- The last component, empty at the top. -/
def name (path : Path) : Text := path.getLast?.getD []

/-- The path without its last component. -/
def parent (path : Path) : Path := path.dropLast

/-- The path itself and every path above it, nearest first. -/
def upward (path : Path) : List Path :=
  (List.range (path.length + 1)).map fun n => path.take (path.length - n)

/-- The part of a name from its last dot on, when something stands before and after the dot. -/
def suffixOfName (name : Text) : Text :=
  let extension := (name.reverse.takeWhile (· != '.')).reverse
  let stem := name.take (name.length - extension.length)
  if extension.isEmpty || stem.length ≤ 1 then [] else '.' :: extension

/-- The suffix of the last component. -/
def suffix (path : Path) : Text := suffixOfName path.name

/-- The written form, with a leading slash. -/
def written (path : Path) : Text := '/' :: Text.join ['/'] path

/-- The components of `path` below `base`, when it lies there. -/
def below? : (base path : Path) → Option (List Text)
  | [], path => some path
  | _ :: _, [] => none
  | part :: base, other :: path => if part = other then below? base path else none

/-- The order of paths: component by component, a path before those below it. -/
def precedes : Path → Path → Bool
  | [], _ => true
  | _ :: _, [] => false
  | a :: p, b :: q => if a = b then precedes p q else Text.precedes a b

end Path
end EnvFiles

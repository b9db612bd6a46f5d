import EnvFiles.Comment.Meaning
import EnvFiles.Comment.Pending
import EnvFiles.Table

/-!
# Reading example files

An example file declares variables by assignments; the comment lines directly above one
describe it. A blank line ends a comment, any other line that is no assignment is passed over.
A name declared again replaces its definition and keeps its place.
-/

namespace EnvFiles

/-- The definition that an assignment under a comment declares. -/
def Definition.ofAssignment (patterns : List DirectivePattern) (comment name value : Text) :
    Except Failure Definition := do
  let meaning ← readComment patterns comment
  return { name, exampleValue := value, requirement := meaning.requirement,
           directive := meaning.directive, description := meaning.description,
           rawComment := comment }

/-- Add a definition, in the place of an earlier one of the same name if there is one. -/
def declare (definitions : List Definition) (definition : Definition) : List Definition :=
  upsert Definition.name definition definitions

/-- Read lines of an example file, given what the lines before them declared and left pending. -/
def readDeclarations (patterns : List DirectivePattern) :
    List Definition → PendingComment → List Text → Except Failure (List Definition)
  | definitions, _, [] => pure definitions
  | definitions, pending, line :: rest =>
    let trimmed := Text.trim line
    if trimmed.isEmpty then readDeclarations patterns definitions {} rest
    else if isComment trimmed then
      readDeclarations patterns definitions (pending.add trimmed) rest
    else match assignment? trimmed with
      | none => readDeclarations patterns definitions pending rest
      | some (name, value) => do
        let definition ← Definition.ofAssignment patterns pending.text name value
        readDeclarations patterns (declare definitions definition) {} rest

/-- Read the text of an example file. -/
def readExample (patterns : List DirectivePattern) (text : Text) (sourcePath : Text := []) :
    Except Failure Schema := do
  return { sourcePath, definitions := ← readDeclarations patterns [] {} (Text.lines text) }

/-- Definitions of a shared and a specific schema together. A name in both has the specific
definition whole, in the place of the shared one. -/
def mergeDefinitions (shared specific : List Definition) : List Definition :=
  (shared ++ specific).foldl declare []

end EnvFiles

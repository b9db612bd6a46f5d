import EnvFiles.Assignment
import EnvFiles.Table

/-!
# Reading values files

A values file assigns values to names. The single comment line directly above an assignment is
kept with the name; a blank line or another assignment between them separates them, any other
line does not. The text itself is kept, because a rewrite changes only what it must.
-/

namespace EnvFiles

/-- What a values file holds. -/
structure ValuesFile where
  values : Table Text Text := []
  comments : Table Text Text := []
  text : Text := []
  deriving DecidableEq, Repr, Inhabited

/-- The values and comments of some lines, after those read before and under a comment line
that is still waiting (empty when there is none). -/
def readValueLines : Table Text Text → Table Text Text → Text → List Text →
    Table Text Text × Table Text Text
  | values, comments, _, [] => (values, comments)
  | values, comments, pending, line :: rest =>
    let trimmed := Text.trim line
    if trimmed.isEmpty then readValueLines values comments [] rest
    else if isComment trimmed then readValueLines values comments trimmed rest
    else match assignment? trimmed with
      | none => readValueLines values comments pending rest
      | some (name, value) =>
        let comments := if pending.isEmpty then comments else comments.put name pending
        readValueLines (values.put name value) comments [] rest

/-- Read the text of a values file. -/
def readValues (text : Text) : ValuesFile :=
  let (values, comments) := readValueLines [] [] [] (Text.lines text)
  { values, comments, text }

end EnvFiles

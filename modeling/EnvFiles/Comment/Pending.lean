import EnvFiles.Text.Lines

/-!
# Comment lines waiting for their variable

The comment lines above an assignment belong to it. They are collected one by one, without
their hash and outer blanks, and joined by spaces when the assignment comes; a blank line
drops them.
-/

namespace EnvFiles

/-- The comment lines collected so far, and whether any line has come since the last reset. -/
structure PendingComment where
  parts : List Text := []
  collecting : Bool := false
  deriving DecidableEq, Repr, Inhabited

/-- Add a comment line; the first character after blanks is its hash. -/
def PendingComment.add (pending : PendingComment) (line : Text) : PendingComment :=
  let text := Text.trim ((Text.trim line).drop 1)
  { parts := if text.isEmpty then pending.parts else pending.parts ++ [text], collecting := true }

/-- The collected lines as one text. -/
def PendingComment.text (pending : PendingComment) : Text := Text.join " " pending.parts

end EnvFiles

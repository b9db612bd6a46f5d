import EnvFiles.Definition
import EnvFiles.Values.File

/-!
# Rewriting values files

A rewrite keeps every line that assigns no updated name, replaces only the value part of the
others, and adds the names that no line assigns at the end, each under its description. It works
on the pieces between line feeds: a carriage return before a line feed belongs to the line end,
and one line end of that kind anywhere makes all line ends of the result of that kind. The result
has no run of more than one empty line, no empty line at either end, and one final line end.
-/

namespace EnvFiles

/-- Spaces and tabs, the blanks that may stand around an equals sign. -/
def isGap (c : Char) : Bool := c == ' ' || c == '\t'

/-- The name that a line assigns, and the line up to its value. -/
def assignedPart? (line : Text) : Option (Text × Text) :=
  if isComment (Text.trim line) then none
  else
    let indent := line.takeWhile Text.isBlank
    match takeName? (line.dropWhile Text.isBlank) with
    | none => none
    | some (name, rest) =>
      match rest.dropWhile isGap with
      | '=' :: value =>
        some (name, indent ++ name ++ rest.takeWhile isGap ++ "=" ++ value.takeWhile isGap)
      | _ => none

/-- A line with the new value of the name it assigns. -/
def rewriteLine (updates : Table Text Text) (line : Text) : Text :=
  match assignedPart? line with
  | none => line
  | some (name, start) =>
    match updates.get? name with
    | some value => start ++ value
    | none => line

/-- The piece without the carriage return at its end. -/
def dropReturn : Text → Text
  | [] => []
  | ['\r'] => []
  | c :: rest => c :: dropReturn rest

/-- The lines of a values file as a rewrite sees them; the empty text has none. -/
def rewriteLines (text : Text) : List Text :=
  if text.isEmpty then [] else (Text.splitAt '\n' text).map dropReturn

/-- Runs of more than two line feeds cut down to two. The number counts the line feeds just
before. -/
def limitFeeds : Nat → Text → Text
  | _, [] => []
  | n, c :: rest =>
    if c = '\n' then
      if n < 2 then '\n' :: limitFeeds (n + 1) rest else limitFeeds n rest
    else c :: limitFeeds 0 rest

/-- The text without line feeds at its ends. -/
def trimFeeds (text : Text) : Text :=
  ((text.dropWhile (· = '\n')).reverse.dropWhile (· = '\n')).reverse

/-- Each line feed written as the given line end. -/
def writeFeeds (lineEnd text : Text) : Text := text.flatMap fun c => if c = '\n' then lineEnd else [c]

/-- The lines as the content of a values file. -/
def layOut (lineEnd : Text) (lines : List Text) : Text :=
  writeFeeds lineEnd (trimFeeds (limitFeeds 0 (Text.join "\n" lines)) ++ "\n")

/-- Whether a carriage return stands before a line feed somewhere in the text. -/
def hasReturnFeed : Text → Bool
  | [] => false
  | '\r' :: '\n' :: _ => true
  | _ :: rest => hasReturnFeed rest

/-- The description of the last definition of a name. -/
def descriptionOf (schema : List Definition) (name : Text) : Text :=
  ((schema.reverse.find? fun definition => definition.name == name).map
    Definition.description).getD []

/-- The lines that add one name: its description, the assignment and an empty line. -/
def addedLines (schema : List Definition) (entry : Text × Text) : List Text :=
  let description := descriptionOf schema entry.1
  let above := if description.isEmpty then [] else ["# " ++ description]
  above ++ [entry.1 ++ "=" ++ entry.2, []]

/-- An empty line between text and what is added, where there is text. -/
def separatorAfter (lines : List Text) : List Text :=
  match lines.getLast? with
  | some line => if (Text.trim line).isEmpty then [] else [[]]
  | none => []

/-- The content of a values file after the updates. -/
def rewriteValues (file : ValuesFile) (updates : Table Text Text)
    (schema : List Definition := []) : Text :=
  let lines := rewriteLines file.text
  let assigned := lines.filterMap fun line => (assignedPart? line).map Prod.fst
  let kept := lines.map (rewriteLine updates)
  let added := (updates.filter fun entry => !assigned.contains entry.1).flatMap
    (addedLines schema)
  let separator := if added.isEmpty then [] else separatorAfter kept
  let lineEnd : Text := if hasReturnFeed file.text then "\r\n" else "\n"
  layOut lineEnd (kept ++ separator ++ added)

/-- A fresh values file of names, values and comments. -/
def formatValues (entries : List (Text × Text × Option Text)) : Text :=
  layOut "\n" (entries.flatMap fun (name, value, comment) =>
    let above := match comment with
      | some (c :: rest) => [if c = '#' then c :: rest else "# " ++ c :: rest]
      | _ => []
    above ++ [name ++ "=" ++ value, []])

end EnvFiles

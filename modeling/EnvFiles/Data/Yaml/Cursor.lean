import EnvFiles.Text.Basic

/-!
# Positions in YAML text

A cursor holds the text that is left and where it starts: the number of characters before it, its
line and its column. Lines and columns decide what a token means.
-/

namespace EnvFiles.Yaml

/-- Characters that end a line. -/
def isBreak (c : Char) : Bool :=
  c == '\n' || c == '\r' || c == '\x85' || c == '\u2028' || c == '\u2029'

/-- Spaces and tabs. -/
def isBlank (c : Char) : Bool := c == ' ' || c == '\t'

/-- Whether nothing, a blank or the end of a line comes next. -/
def atGap : Text → Bool
  | [] => true
  | c :: _ => isBlank c || isBreak c

/-- A position in a text. -/
structure Cursor where
  rest : Text
  index : Nat := 0
  line : Nat := 0
  column : Nat := 0

/-- The position after the next character. A byte order mark takes no column. -/
def Cursor.step (cursor : Cursor) : Cursor :=
  match cursor.rest with
  | [] => cursor
  | c :: rest =>
    { rest
      index := cursor.index + 1
      line := if isBreak c then cursor.line + 1 else cursor.line
      column := if isBreak c then 0
        else if c == '\ufeff' then cursor.column else cursor.column + 1 }

/-- The position after the given number of characters. -/
def Cursor.skip : Nat → Cursor → Cursor
  | 0, cursor => cursor
  | n + 1, cursor => skip n cursor.step

/-- The position at which the given end of the text is left. -/
def Cursor.upTo (cursor : Cursor) (rest : Text) : Cursor :=
  cursor.skip (cursor.rest.length - rest.length)

/-- Whether a text starts with one of the marks that separate documents. -/
def atDocumentMark : Text → Bool
  | '-' :: '-' :: '-' :: rest => atGap rest
  | '.' :: '.' :: '.' :: rest => atGap rest
  | _ => false

end EnvFiles.Yaml

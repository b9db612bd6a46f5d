import EnvFiles.Comment.Tag

/-!
# How a plugin's tag stands in a comment

A tag is matched by its letters alone, wherever it stands: in brackets, in brackets with an
argument, at an opening bracket with a colon, or by itself. The empty pattern matches at the
start of every comment. Case is ignored unless the pattern asks for exact case.
-/

namespace EnvFiles

/-- What surrounds a tag. -/
inductive TagForm
  | plain
  | argument
  | opening
  | word
  | empty
  deriving DecidableEq, Repr, Inhabited

/-- A tag and how it is matched. -/
structure TagPattern where
  tag : Text
  form : TagForm := .plain
  exactCase : Bool := false
  deriving DecidableEq, Repr, Inhabited

namespace TagPattern

/-- The part of a text that fixed letters cover at its start, and the rest. -/
def covered? (pattern : TagPattern) (letters text : Text) : Option (Text × Text) :=
  if pattern.exactCase then (Text.dropStart? letters text).map fun rest => (letters, rest)
  else foldedStart? letters text

/-- What the pattern covers at the start of a text. -/
def matchStart? (pattern : TagPattern) (text : Text) : Option Text :=
  match pattern.form with
  | .plain => (pattern.covered? ("[" ++ pattern.tag ++ "]") text).map Prod.fst
  | .opening => (pattern.covered? ("[" ++ pattern.tag ++ ":") text).map Prod.fst
  | .word => (pattern.covered? pattern.tag text).map Prod.fst
  | .empty => some []
  | .argument =>
    match pattern.covered? ("[" ++ pattern.tag ++ ":") text with
    | none => none
    | some (start, rest) =>
      match rest.takeWhile (· != ']'), rest.dropWhile (· != ']') with
      | c :: argument, ']' :: _ => some (start ++ (c :: argument) ++ "]")
      | _, _ => none

/-- The first part of a comment that the pattern covers. -/
def find (pattern : TagPattern) (comment : Text) : Option Text :=
  Text.firstMatch pattern.matchStart? comment

end TagPattern
end EnvFiles

import EnvFiles.Comment.Tag
import EnvFiles.Failure

/-!
# What a comment says about a variable

A comment gives a requirement level, a directive and a description. The first requirement tag
counts; a directive is looked for among the plugins' patterns first, in their order, and then
among the built-in tags. The text that each of the two covered is taken out of the description
once, and the words that remain are joined by single spaces. A tag that matches no rule stays
in the description.
-/

namespace EnvFiles

/-- A plugin's way to recognise its directive: the kind it claims and the search for the part
of a comment that names it. -/
structure DirectivePattern where
  kind : Text
  find : Text → Option Text

/-- The meaning of a comment. -/
structure CommentMeaning where
  requirement : Requirement := .optional
  directive : Directive := .placeholder
  description : Text := []
  deriving DecidableEq, Repr, Inhabited

/-- The directive that a comment names and the text that names it, if any does. -/
def findDirective (patterns : List DirectivePattern) (comment : Text) : Directive × Option Text :=
  let claimed := patterns.findSome? fun pattern =>
    (pattern.find comment).map fun raw => (Directive.plugin pattern.kind raw, some raw)
  let builtin := directiveTags.findSome? fun tag =>
    (Text.firstMatch tag comment).map fun found => (found.meaning, some found.matched)
  (claimed.or builtin).getD (.placeholder, none)

/-- A description without a leading hash and with single spaces between its words. -/
def cleanDescription (text : Text) : Text :=
  match text with
  | '#' :: rest => Text.normaliseBlanks (Text.trimStart rest)
  | _ => Text.normaliseBlanks text

/-- Read a comment. It fails only on a requirement tag spelled with a letter that counts as an
ASCII one but has no ASCII small letter. -/
def readComment (patterns : List DirectivePattern) (comment : Text) :
    Except Failure CommentMeaning := do
  let (requirement, description) ← match Text.firstMatch requirementTag comment with
    | none => pure (Requirement.optional, comment)
    | some found =>
      let word := Text.lower found.meaning
      match Requirement.ofWord? word with
      | some level => pure (level, Text.eraseFirst found.matched comment)
      | none => throw (.unknownRequirement word)
  let (directive, matched) := findDirective patterns comment
  let description := match matched with
    | some raw => Text.eraseFirst raw description
    | none => description
  return { requirement, directive, description := cleanDescription description }

end EnvFiles

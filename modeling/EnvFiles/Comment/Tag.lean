import EnvFiles.Assignment
import EnvFiles.Definition
import EnvFiles.Text.Case
import EnvFiles.Text.Word

/-!
# Tags in comments

A tag is a word in square brackets, with arguments after a colon for some words. Keywords are
read without regard to case, under the case rule of the character standard, so a dotless i or a
long s stands for its ASCII letter. The arguments are taken as they are written. Each tag is a
function from the text at one position to what it matched there.
-/

namespace EnvFiles

/-- A tag found in a comment: the text it covers and what it says. -/
structure Found (α : Type) where
  matched : Text
  meaning : α

/-- What a pattern covers at the start of a text when case is ignored, and the rest. -/
def foldedStart? : (pattern text : Text) → Option (Text × Text)
  | [], text => some ([], text)
  | _ :: _, [] => none
  | p :: pattern, c :: text =>
    if Text.sameLetter p c then
      (foldedStart? pattern text).map fun (covered, rest) => (c :: covered, rest)
    else none

/-- The ASCII capital letters. -/
def capitals : Text := (List.range 26).map fun n => Char.ofNat (65 + n)

/-- Characters that count as ASCII letters when case is ignored, and the underscore. -/
def isFoldedNameStart (c : Char) : Bool :=
  c == '_' || capitals.any fun letter => Text.sameLetter letter c

/-- The same, and the digits. -/
def isFoldedNameChar (c : Char) : Bool := c.isDigit || isFoldedNameStart c

/-- A tag that is a word alone. -/
def wordTag (word : Text) (meaning : Directive) (text : Text) : Option (Found Directive) :=
  (foldedStart? ("[" ++ word ++ "]") text).map fun (covered, _) => ⟨covered, meaning⟩

/-- A tag with one argument, a run of characters up to the closing bracket whose first and
other characters are as given. -/
def argumentTag (word : Text) (first others : Char → Bool) (meaning : Text → Directive)
    (text : Text) : Option (Found Directive) :=
  match foldedStart? ("[" ++ word ++ ":") text with
  | some (covered, c :: rest) =>
    if first c then
      match rest.dropWhile others with
      | ']' :: _ =>
        let argument := c :: rest.takeWhile others
        some ⟨covered ++ argument ++ "]", meaning argument⟩
      | _ => none
    else none
  | _ => none

/-- The two literals of a yes/no tag after its keyword: a colon, a literal without slash or
bracket, a slash and a literal without bracket. -/
def literalPair? : Text → Option (Text × Text)
  | ':' :: rest =>
    let yes := rest.takeWhile fun c => c != '/' && c != ']'
    match yes, rest.dropWhile fun c => c != '/' && c != ']' with
    | _ :: _, '/' :: after =>
      let no := after.takeWhile (· != ']')
      match no, after.dropWhile (· != ']') with
      | _ :: _, ']' :: _ => some (yes, no)
      | _, _ => none
    | _, _ => none
  | _ => none

/-- The yes/no tag, with its literals or with `true` and `false`. -/
def booleanTag (text : Text) : Option (Found Directive) :=
  match foldedStart? "[boolean" text with
  | none => none
  | some (covered, rest) =>
    match literalPair? rest, rest with
    | some (yes, no), _ => some ⟨covered ++ ":" ++ yes ++ "/" ++ no ++ "]", .boolean yes no⟩
    | none, ']' :: _ => some ⟨covered ++ "]", .boolean "true" "false"⟩
    | none, _ => none

/-- The built-in directive tags, in the order in which they are looked for. -/
def directiveTags : List (Text → Option (Found Directive)) := [
  wordTag "prompt" .prompt,
  argumentTag "computed" Text.isWord Text.isWord .computed,
  argumentTag "copy" isFoldedNameStart isFoldedNameChar .copy,
  argumentTag "default" (· != ']') (· != ']') fun value => .fixed (some value),
  booleanTag,
  wordTag "local-only" .localOnly,
  wordTag "placeholder" .placeholder]

/-- A requirement tag at the start of a text; its meaning is the word between the brackets. -/
def requirementTag (text : Text) : Option (Found Text) :=
  [Requirement.required, .optional, .deprecated].findSome? fun level =>
    (foldedStart? ("[" ++ level.word ++ "]") text).map fun (covered, _) =>
      ⟨covered, covered.tail.dropLast⟩

end EnvFiles

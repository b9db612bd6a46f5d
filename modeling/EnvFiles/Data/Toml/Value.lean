import EnvFiles.Data.Toml.Scalar

/-!
# TOML keys and values

A key is a list of names with dots between them. An array can hold comments and line feeds
between its items, an inline table cannot. Within an inline table each name is given once, and a
table or array that was given whole is not added to. Values that lie too deep in one another are not
followed.
-/

namespace EnvFiles.Toml

/-- A key, as the names that lead to a value. -/
abbrev Key := List Text

/-- Characters of a bare name. -/
def isBareChar (c : Char) : Bool := c.isAlphanum || c == '-' || c == '_'

/-- One name of a key. A quoted name stands on one line. -/
def name? (text : Text) : Option (Text × Text) :=
  match text with
  | '"' :: rest => basicFrom false .text rest
  | '\'' :: rest => literalFrom rest
  | _ =>
    let bare := text.takeWhile isBareChar
    if bare.isEmpty then none else some (bare, text.dropWhile isBareChar)

/-- The names of a key after the first one, with blanks around the dots. The number bounds
them. -/
def moreNames? : Nat → Text → Option (Key × Text)
  | 0, _ => none
  | names + 1, text =>
    match skipBlanks text with
    | '.' :: rest => do
      let (name, rest) ← name? (skipBlanks rest)
      let (more, rest) ← moreNames? names rest
      return (name :: more, rest)
    | rest => some ([], rest)

/-- A key at the start of a text, and what follows it and the blanks after it. -/
def key? (text : Text) : Option (Key × Text) := do
  let (name, rest) ← name? text
  let (more, rest) ← moreNames? (text.length + 1) rest
  return (name :: more, rest)

/-- The text after a comment, which ends before a line feed. -/
def skipComment? (text : Text) : Option Text :=
  match text with
  | '#' :: rest =>
    if (rest.takeWhile (· != '\n')).any isControl then none else some (rest.dropWhile (· != '\n'))
  | _ => some text

/-- The text after blanks, line feeds and comments. The flag tells whether a comment is under
way. -/
def skipSpaceAndComments? (inComment : Bool) : Text → Option Text
  | [] => some []
  | c :: rest =>
    if c = '\n' then skipSpaceAndComments? false rest
    else if inComment then if isControl c then none else skipSpaceAndComments? true rest
    else if isBlank c then skipSpaceAndComments? false rest
    else if c = '#' then skipSpaceAndComments? true rest
    else some (c :: rest)

/-- Change the table that names lead to, making the tables on the way. Where a list of tables is
met its last one counts, if lists may be entered. -/
def changeTable (intoLists : Bool)
    (change : List (Data × Data) → Option (List (Data × Data))) :
    Key → List (Data × Data) → Option (List (Data × Data))
  | [], entries => change entries
  | name :: rest, entries =>
    let put (value : Data) := Data.putEntry (.text name) value entries
    match Data.lookup? name entries with
    | none => (changeTable intoLists change rest []).map fun inner => put (.mapping inner)
    | some (.mapping inner) =>
      (changeTable intoLists change rest inner).map fun inner => put (.mapping inner)
    | some (.list items) =>
      match intoLists, items.getLast? with
      | true, some (.mapping inner) =>
        (changeTable intoLists change rest inner).map fun inner =>
          put (.list (items.dropLast ++ [.mapping inner]))
      | _, _ => none
    | some _ => none

/-- Add an entry that is not there yet. -/
def addEntry (name : Text) (value : Data) (entries : List (Data × Data)) :
    Option (List (Data × Data)) :=
  match Data.lookup? name entries with
  | some _ => none
  | none => some (Data.putEntry (.text name) value entries)

/-- Add an entry under a key. -/
def addAt (intoLists : Bool) (above key : Key) (value : Data) (entries : List (Data × Data)) :
    Option (List (Data × Data)) :=
  changeTable intoLists (addEntry (key.getLast?.getD []) value) (above ++ key.dropLast) entries

/-- Whether a value is a table or an array, which is not added to once it was given whole. -/
def isWhole : Data → Bool
  | .list _ => true
  | .mapping _ => true
  | _ => false

/-- Whether a key, or a key above it, is among the given ones. -/
def coveredBy (keys : List Key) (key : Key) : Bool :=
  keys.any fun other => !other.isEmpty && other.isPrefixOf key

/-- How deep values are followed. An array is two levels deep, an inline table three. -/
def deepest : Nat := 984

mutual

/-- A value at the start of a text, at a level. Every step into a value, item or entry takes one
from the number. -/
def value (level : Nat) : Nat → Text → ReadResult (Data × Text)
  | 0, _ => .error .malformed
  | steps + 1, text =>
    match text with
    | '[' :: rest => do
      if deepest < level + 2 then throw .tooDeep
      else match ← .ofOption (skipSpaceAndComments? false rest) with
        | ']' :: after => return (.list [], after)
        | inner =>
          let (found, after) ← items (level + 2) steps inner
          return (.list found, after)
    | '\x7b' :: rest =>
      if deepest < level + 3 then .error .tooDeep
      else match skipBlanks rest with
        | '\x7d' :: after => .ok (.mapping [], after)
        | inner => do
          let (found, after) ← entries (level + 3) steps [] [] inner
          return (.mapping found, after)
    | '"' :: _ => do
      let (t, after) ← .ofOption (string? text)
      return (.text t, after)
    | '\'' :: _ => do
      let (t, after) ← .ofOption (string? text)
      return (.text t, after)
    | _ => plainValue text

/-- The items of an array up to its closing bracket. -/
def items (level : Nat) : Nat → Text → ReadResult (List Data × Text)
  | 0, _ => .error .malformed
  | steps + 1, text => do
    let (item, after) ← value level steps text
    match ← .ofOption (skipSpaceAndComments? false after) with
    | ']' :: rest => return ([item], rest)
    | ',' :: rest =>
      match ← .ofOption (skipSpaceAndComments? false rest) with
      | ']' :: rest => return ([item], rest)
      | more =>
        let (others, after) ← items level steps more
        return (item :: others, after)
    | _ => throw .malformed

/-- The entries of an inline table up to its closing brace, after those before them; the keys of
tables and arrays among these are given. -/
def entries (level : Nat) :
    Nat → List Key → List (Data × Data) → Text → ReadResult (List (Data × Data) × Text)
  | 0, _, _, _ => .error .malformed
  | steps + 1, whole, before, text => do
    let (key, value, after) ← pair level steps text
    if coveredBy whole key then throw .malformed
    else
      let known ← .ofOption (addAt false [] key value before)
      match skipBlanks after with
      | '\x7d' :: rest => return (known, rest)
      | ',' :: rest =>
        entries level steps (if isWhole value then key :: whole else whole) known
          (skipBlanks rest)
      | _ => throw .malformed

/-- A key, an equals sign and a value. -/
def pair (level : Nat) : Nat → Text → ReadResult (Key × Data × Text)
  | 0, _ => .error .malformed
  | steps + 1, text => do
    match ← .ofOption (key? text) with
    | (key, '=' :: rest) =>
      let (value, after) ← value level steps (skipBlanks rest)
      return (key, value, after)
    | _ => throw .malformed

end

end EnvFiles.Toml

import EnvFiles.Data.Toml.Value

/-!
# Reading TOML

A document is a list of lines: entries, headers of tables, headers of tables in arrays, comments
and empty lines. An entry belongs to the table of the last header. A table is opened by one
header only, and neither a table opened by dotted keys nor one given whole is opened again.
-/

namespace EnvFiles.Toml

/-- What has been read: the data, the header that entries belong to, the tables that were opened,
those that dotted keys opened under the present header, and the values that were given whole. -/
structure Document where
  entries : List (Data × Data) := []
  header : Key := []
  opened : List Key := []
  dotted : List Key := []
  whole : List Key := []

namespace Document

/-- Under a new header the tables that dotted keys opened count as opened. -/
def settle (document : Document) : Document :=
  { document with opened := document.opened ++ document.dotted, dotted := [] }

/-- Open the table of a header. -/
def openTable (document : Document) (key : Key) : Option Document :=
  if document.opened.contains key || coveredBy document.whole key then none
  else do
    let entries ← changeTable true some key document.entries
    return { document with entries, header := key, opened := key :: document.opened }

/-- Add an empty table to the array that a name stands for. -/
def appendTable (name : Text) (entries : List (Data × Data)) : Option (List (Data × Data)) :=
  match Data.lookup? name entries with
  | some (.list items) => some (Data.putEntry (.text name) (.list (items ++ [.mapping []])) entries)
  | some _ => none
  | none => some (Data.putEntry (.text name) (.list [.mapping []]) entries)

/-- Open a table in an array. What was opened or given whole below the table before it can be
opened again. -/
def openItem (document : Document) (key : Key) : Option Document :=
  if coveredBy document.whole key then none
  else do
    let fresh (keys : List Key) := keys.filter fun other => !key.isPrefixOf other
    let entries ← changeTable true (appendTable (key.getLast?.getD [])) key.dropLast
      document.entries
    return { document with
      entries, header := key, opened := key :: fresh document.opened
      whole := fresh document.whole }

/-- The keys of the tables that a dotted key passes. -/
def passed (header key : Key) : List Key :=
  (List.range (key.length - 1)).map fun n => header ++ key.take (n + 1)

/-- Add an entry to the table of the header. -/
def addPair (document : Document) (key : Key) (value : Data) : Option Document :=
  let passed := passed document.header key
  if passed.any document.opened.contains then none
  else if coveredBy document.whole (document.header ++ key.dropLast) then none
  else do
    let entries ← addAt true document.header key value document.entries
    let whole := if isWhole value then (document.header ++ key) :: document.whole
      else document.whole
    return { document with entries, dotted := document.dotted ++ passed, whole }

/-- The rest of a line after its statement: blanks and a comment. -/
def endLine? (text : Text) : Option Text := do
  match ← skipComment? (skipBlanks text) with
  | [] => return []
  | '\n' :: rest => return rest
  | _ => none

/-- Read one line. -/
def line (document : Document) (text : Text) : ReadResult (Document × Text) :=
  match skipBlanks text with
  | [] => .ok (document, [])
  | '\n' :: rest => .ok (document, rest)
  | '#' :: rest => do return (document, ← .ofOption (endLine? ('#' :: rest)))
  | '[' :: '[' :: rest => .ofOption do
    match ← key? (skipBlanks rest) with
    | (key, ']' :: ']' :: rest) => return (← document.settle.openItem key, ← endLine? rest)
    | _ => none
  | '[' :: rest => .ofOption do
    match ← key? (skipBlanks rest) with
    | (key, ']' :: rest) => return (← document.settle.openTable key, ← endLine? rest)
    | _ => none
  | rest => do
    let (key, value, rest) ← pair 0 (2 * rest.length + 3) rest
    .ofOption do return (← document.addPair key value, ← endLine? rest)

/-- Read all lines. The number bounds them. -/
def finish : Nat → Document → Text → ReadResult Document
  | 0, _, _ => .error .malformed
  | lines + 1, document, text =>
    if text.isEmpty then .ok document
    else do
      let (document, rest) ← document.line text
      finish lines document rest

end Document

/-- The value that a text is, if it follows the format. -/
def read (text : Text) : ReadResult Data := do
  return .mapping (← Document.finish (text.length + 1) {} text).entries

end EnvFiles.Toml

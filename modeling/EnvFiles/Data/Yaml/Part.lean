import EnvFiles.Data.Fault
import EnvFiles.Data.Yaml.Token
import EnvFiles.Table

/-!
# The parts of a YAML document

Tokens are put together to scalars, sequences and mappings. An anchor names the part after it, and
an alias stands for the part that has its name. A name is given once, and not used before it is
given; a collection can hold aliases of its own name. Collections are numbered, so that one can be
told from another. Collections that lie too deep in one another are not followed.
-/

namespace EnvFiles.Yaml

/-- A part of a document. -/
inductive Part
  | plain (text : Text)
  | quoted (codes : Codes)
  | sequence (number : Nat) (items : List Part)
  | mapping (number : Nat) (entries : List (Part × Part))
  | alias (name : Text)
  deriving Repr, Inhabited

/-- A part that was left out. -/
def Part.empty : Part := .plain []

/-- A document: its outermost part, the named parts in the order in which they are complete, and
the number of its collections. -/
structure Document where
  root : Part
  named : Table Text Part
  collections : Nat

/-- The tokens left, the names given so far, the named parts that are complete, the number of
collections so far, and the number of those that are open. -/
structure Reading where
  tokens : List Token
  names : List Text := []
  named : Table Text Part := []
  collections : Nat := 0
  level : Nat := 0

/-- A step that takes tokens and may fail. -/
abbrev Composing := StateT Reading (Except ReadFault)

namespace Composing

/-- The next token. -/
def peek : Composing (Option Token) := do return (← get).tokens.head?

/-- Give up at the next token. -/
def refuse {α : Type} : Composing α := do
  match ← peek with
  | some (.noCharacter number) =>
    throw (if number < 0x80000000 then .noValue .noSuchCharacter else .tooLarge)
  | _ => throw .malformed

/-- Take the next token. -/
def advance : Composing Unit :=
  modify fun reading => { reading with tokens := reading.tokens.drop 1 }

/-- Whether the next token is one of the given ones. -/
def nextIs (tokens : List Token) : Composing Bool := do
  match ← peek with
  | some token => return tokens.contains token
  | none => return false

/-- Take the next token if it is the given one. -/
def took (token : Token) : Composing Bool := do
  if ← nextIs [token] then
    advance
    return true
  else return false

/-- Take the given token. -/
def expect (token : Token) : Composing Unit := do
  if ← took token then return () else refuse

/-- The alias of a name that is given already. -/
def aliasOf (name : Text) : Composing Part := do
  if (← get).names.contains name then return .alias name else throw .malformed

/-- Give a name to a part that follows. -/
def openName (name : Text) : Composing Unit := do
  if (← get).names.contains name then throw .malformed
  else modify fun reading => { reading with names := name :: reading.names }

/-- Complete the part of a name. -/
def closeName (name : Text) (part : Part) : Composing Unit :=
  modify fun reading => { reading with named := reading.named.put name part }

/-- A new number for a collection. -/
def newNumber : Composing Nat := do
  let number := (← get).collections
  modify fun reading => { reading with collections := number + 1 }
  return number

/-- Read what a collection holds, and give the collection a number. -/
def numbered {α : Type} (form : Nat → α → Part) (body : Composing α) : Composing Part := do
  let number ← newNumber
  let level := (← get).level
  if level = deepest then throw .tooDeep
  modify fun reading => { reading with level := level + 1 }
  let found ← body
  modify fun reading => { reading with level }
  return form number found

end Composing

open Composing

mutual

/-- One part. Block collections, and block entries that are not indented, count where they are
allowed. Every step takes one from the number. -/
def part (block unindented : Bool) : Nat → Composing Part
  | 0 => throw .malformed
  | steps + 1 => do
    match ← peek with
    | some (.alias name) =>
      advance
      aliasOf name
    | some (.anchor name) =>
      advance
      openName name
      let found ← content block unindented true steps
      closeName name found
      return found
    | _ => content block unindented false steps

/-- A part after its anchor, if it has one; then it may be left out. -/
def content (block unindented anchored : Bool) : Nat → Composing Part
  | 0 => throw .malformed
  | steps + 1 => do
    match ← peek with
    | some (.plain text) =>
      advance
      return .plain text
    | some (.quoted codes) =>
      advance
      return .quoted codes
    | some .flowSequence =>
      advance
      numbered .sequence (flowItems true steps)
    | some .flowMapping =>
      advance
      numbered .mapping (flowEntries true steps)
    | some .blockSequence =>
      if block then
        advance
        numbered .sequence (blockItems steps)
      else leftOut anchored
    | some .blockMapping =>
      if block then
        advance
        numbered .mapping (blockEntries steps)
      else leftOut anchored
    | some .blockEntry =>
      if unindented then numbered .sequence (unindentedItems steps)
      else leftOut anchored
    | _ => leftOut anchored

/-- A part that is left out, where it may be. -/
def leftOut (anchored : Bool) : Composing Part :=
  if anchored then pure Part.empty else refuse

/-- A part unless one of the given tokens comes next. -/
def partUnless (stops : List Token) (block unindented : Bool) : Nat → Composing Part
  | 0 => throw .malformed
  | steps + 1 => do
    if (← nextIs stops) then return Part.empty else part block unindented steps

/-- The items of a block sequence. -/
def blockItems : Nat → Composing (List Part)
  | 0 => throw .malformed
  | steps + 1 => do
    if ← took .blockEntry then
      let item ← partUnless [.blockEntry, .blockEnd] true false steps
      return item :: (← blockItems steps)
    else
      expect .blockEnd
      return []

/-- The items of a block sequence that is not indented. -/
def unindentedItems : Nat → Composing (List Part)
  | 0 => throw .malformed
  | steps + 1 => do
    if ← took .blockEntry then
      let item ← partUnless [.blockEntry, .key, .value, .blockEnd] true false steps
      return item :: (← unindentedItems steps)
    else return []

/-- The entries of a block mapping. -/
def blockEntries : Nat → Composing (List (Part × Part))
  | 0 => throw .malformed
  | steps + 1 => do
    if ← took .key then
      let key ← partUnless [.key, .value, .blockEnd] true true steps
      let value ← if ← took .value then partUnless [.key, .value, .blockEnd] true true steps
        else pure Part.empty
      return (key, value) :: (← blockEntries steps)
    else
      expect .blockEnd
      return []

/-- The items of a flow sequence. A key among them starts a mapping of one entry. -/
def flowItems (first : Bool) : Nat → Composing (List Part)
  | 0 => throw .malformed
  | steps + 1 => do
    if ← took .flowSequenceEnd then return []
    else
      if !first then expect .flowEntry
      if ← took .key then
        let key ← partUnless [.value, .flowEntry, .flowSequenceEnd] false false steps
        let value ← if ← took .value then
            partUnless [.flowEntry, .flowSequenceEnd] false false steps
          else pure Part.empty
        let number ← newNumber
        return .mapping number [(key, value)] :: (← flowItems false steps)
      else if ← took .flowSequenceEnd then return []
      else
        let item ← part false false steps
        return item :: (← flowItems false steps)

/-- The entries of a flow mapping. -/
def flowEntries (first : Bool) : Nat → Composing (List (Part × Part))
  | 0 => throw .malformed
  | steps + 1 => do
    if ← took .flowMappingEnd then return []
    else
      if !first then expect .flowEntry
      if ← took .key then
        let key ← partUnless [.value, .flowEntry, .flowMappingEnd] false false steps
        let value ← if ← took .value then
            partUnless [.flowEntry, .flowMappingEnd] false false steps
          else pure Part.empty
        return (key, value) :: (← flowEntries false steps)
      else if ← took .flowMappingEnd then return []
      else
        let key ← part false false steps
        return (key, Part.empty) :: (← flowEntries false steps)

end

/-- The one document of a stream of tokens; a stream without tokens holds nothing. -/
def document (steps : Nat) : Composing (Option Part) := do
  match ← peek with
  | none => return none
  | some .documentStart =>
    advance
    match ← peek with
    | none => return some Part.empty
    | some token =>
      if token = .documentStart || token = .documentEnd then return some Part.empty
      else return some (← part true false steps)
  | some _ => return some (← part true false steps)

/-- The one document of a stream of tokens, after which only marks of its end may follow. -/
def onlyDocument (steps : Nat) : Composing (Option Part) := do
  let found ← document steps
  modify fun reading => { reading with tokens := reading.tokens.dropWhile (· == .documentEnd) }
  if (← get).tokens.isEmpty then return found else refuse

/-- The document that tokens make up. -/
def Document.ofTokens (tokens : List Token) : ReadResult (Option Document) := do
  let (found, reading) ← (onlyDocument (4 * tokens.length + 4)).run { tokens }
  return found.map fun root => ⟨root, reading.named, reading.collections⟩

end EnvFiles.Yaml

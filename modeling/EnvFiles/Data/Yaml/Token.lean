import EnvFiles.Data.Yaml.Quoted

/-!
# YAML tokens

The structure of block collections lies in their indentation; tokens make it explicit. A scalar,
alias or flow collection may turn out to be a key when a colon follows it on its line: until then
its place among the tokens is remembered, for each level of flow collections, and the key token is
put there later. A candidate that stands where only a key can stand must become one.
-/

namespace EnvFiles.Yaml

/-- The tokens of YAML text. -/
inductive Token
  | documentStart
  | documentEnd
  | blockSequence
  | blockMapping
  | blockEnd
  | flowSequence
  | flowSequenceEnd
  | flowMapping
  | flowMappingEnd
  | blockEntry
  | flowEntry
  | key
  | value
  | alias (name : Text)
  | anchor (name : Text)
  | plain (text : Text)
  | quoted (codes : Codes)
  /-- An escape whose number no character has; nothing is read after it. -/
  | noCharacter (number : Nat)
  deriving DecidableEq, Repr, Inhabited

/-- A token that may become a key: the number of tokens before it, and where it starts. -/
structure Candidate where
  position : Nat
  required : Bool
  index : Nat
  line : Nat
  column : Nat

/-- The most collections in one another that are followed. -/
def deepest : Nat := 488

/-- The state of reading tokens. The tokens so far are given last first, with their number.
Indentations are those of the open block collections, the innermost first. Reading is broken off
at a character that does not exist. -/
structure Lexing where
  cursor : Cursor
  tokens : List Token := []
  count : Nat := 0
  flow : Nat := 0
  indents : List Nat := []
  allowKey : Bool := true
  candidates : List (Nat × Candidate) := []
  broken : Bool := false

namespace Lexing

/-- Add a token at the end. -/
def emit (state : Lexing) (token : Token) : Lexing :=
  { state with tokens := token :: state.tokens, count := state.count + 1 }

/-- Add a token that takes the given number of characters. -/
def emitOver (state : Lexing) (length : Nat) (token : Token) : Lexing :=
  { state.emit token with cursor := state.cursor.skip length }

/-- The candidate of the current level. -/
def candidate? (state : Lexing) : Option Candidate := state.candidates.lookup state.flow

/-- Forget the candidate of the current level. -/
def forget (state : Lexing) : Lexing :=
  { state with candidates := state.candidates.filter fun entry => entry.1 != state.flow }

/-- Give up the candidate of the current level, unless it must become a key. -/
def dropCandidate (state : Lexing) : Option Lexing :=
  match state.candidate? with
  | some candidate => if candidate.required then none else some state.forget
  | none => some state

/-- A candidate can only become a key on its line and within 1024 characters. -/
def isStale (state : Lexing) (candidate : Candidate) : Bool :=
  candidate.line != state.cursor.line || candidate.index + 1024 < state.cursor.index

/-- Give up the candidates that can no longer become keys. -/
def dropStale (state : Lexing) : Option Lexing :=
  if state.candidates.any fun entry => state.isStale entry.2 && entry.2.required then none
  else some { state with
    candidates := state.candidates.filter fun entry => !state.isStale entry.2 }

/-- Take what comes next as a candidate, if a key can stand there. -/
def saveCandidate (state : Lexing) : Option Lexing :=
  if state.allowKey then do
    let required := state.flow == 0 && state.indents.head? == some state.cursor.column
    let state ← state.dropCandidate
    let candidate : Candidate := {
      position := state.count
      required
      index := state.cursor.index
      line := state.cursor.line
      column := state.cursor.column }
    return { state with candidates := (state.flow, candidate) :: state.candidates }
  else some state

/-- Close as many block collections as the number says. -/
def closeBlocks (state : Lexing) : Nat → Lexing
  | 0 => state
  | blocks + 1 => closeBlocks { state.emit .blockEnd with indents := state.indents.tail } blocks

/-- Close the block collections that end before the column. -/
def unwind (state : Lexing) (column : Nat) : Lexing :=
  if state.flow != 0 then state
  else state.closeBlocks (state.indents.takeWhile (column < ·)).length

/-- Close all block collections. -/
def unwindAll (state : Lexing) : Lexing :=
  if state.flow != 0 then state else state.closeBlocks state.indents.length

/-- Whether a collection at the column is indented deeper than the open ones. -/
def isDeeper (state : Lexing) (column : Nat) : Bool :=
  match state.indents with
  | [] => true
  | indent :: _ => indent < column

/-- Open a block collection here, if it is indented deeper than the open ones. -/
def openBlock (state : Lexing) (token : Token) : Lexing :=
  if state.isDeeper state.cursor.column then
    { state.emit token with indents := state.cursor.column :: state.indents }
  else state

/-- The number of blanks, breaks and characters of comments at the start of a text, and whether
there is a break among them. -/
def gapBefore (inComment : Bool) : Text → Nat × Bool
  | [] => (0, false)
  | c :: rest =>
    if isBreak c then ((gapBefore false rest).1 + 1, true)
    else if inComment || c = ' ' || c = '#' then
      let (length, broke) := gapBefore (inComment || c = '#') rest
      (length + 1, broke)
    else (0, false)

/-- Go to the next token. After a break outside of flow collections a key can stand. -/
def toNext (state : Lexing) : Lexing :=
  let cursor := if state.cursor.index == 0 && state.cursor.rest.head? == some '\ufeff' then
    state.cursor.step else state.cursor
  let (length, broke) := gapBefore false cursor.rest
  { state with
    cursor := cursor.skip length
    allowKey := state.allowKey || (broke && state.flow == 0) }

/-- A mark between documents. -/
def documentMark (state : Lexing) (token : Token) : Option Lexing := do
  let state ← state.unwindAll.dropCandidate
  return { state.emitOver 3 token with allowKey := false }

/-- The start of a flow collection. -/
def openFlow (state : Lexing) (token : Token) : Option Lexing := do
  let state ← state.saveCandidate
  return { state.emitOver 1 token with flow := state.flow + 1, allowKey := true }

/-- The end of a flow collection. -/
def closeFlow (state : Lexing) (token : Token) : Option Lexing := do
  let state ← state.dropCandidate
  if state.flow == 0 then none
  else return { state.emitOver 1 token with flow := state.flow - 1, allowKey := false }

/-- The comma between entries of a flow collection. -/
def flowEntry (state : Lexing) : Option Lexing := do
  let state ← state.dropCandidate
  return { state.emitOver 1 .flowEntry with allowKey := true }

/-- The dash before an entry of a block sequence. -/
def blockEntry (state : Lexing) : Option Lexing := do
  if state.flow == 0 && !state.allowKey then none
  else
    let state := if state.flow == 0 then state.openBlock .blockSequence else state
    let state ← state.dropCandidate
    return { state.emitOver 1 .blockEntry with allowKey := true }

/-- The question mark before a key. -/
def explicitKey (state : Lexing) : Option Lexing := do
  if state.flow == 0 && !state.allowKey then none
  else
    let state := if state.flow == 0 then state.openBlock .blockMapping else state
    let state ← state.dropCandidate
    return { state.emitOver 1 .key with allowKey := state.flow == 0 }

/-- Put tokens before the ones from a position on. -/
def insert (state : Lexing) (position : Nat) (inserted : List Token) : Lexing :=
  let later := state.count - position
  { state with
    tokens := state.tokens.take later ++ inserted.reverse ++ state.tokens.drop later
    count := state.count + inserted.length }

/-- The colon before a value. The candidate of the level, if there is one, becomes a key, and in
block context a mapping may start with it. -/
def valueMark (state : Lexing) : Option Lexing :=
  match state.candidate? with
  | some candidate =>
    let starts := state.flow == 0 && state.isDeeper candidate.column
    let inserted := if starts then [Token.blockMapping, .key] else [.key]
    let state := { state.forget.insert candidate.position inserted with
      indents := if starts then candidate.column :: state.indents else state.indents }
    some { state.emitOver 1 .value with allowKey := false }
  | none => do
    if state.flow == 0 && !state.allowKey then none
    else
      let state := if state.flow == 0 then state.openBlock .blockMapping else state
      let state ← state.dropCandidate
      return { state.emitOver 1 .value with allowKey := state.flow == 0 }

/-- Characters of the name of an anchor. -/
def isAnchorChar (c : Char) : Bool := c.isAlphanum || c == '-' || c == '_'

/-- Whether the name of an anchor can end before a text. -/
def endsAnchor : Text → Bool
  | [] => true
  | c :: _ => atGap [c] || ("?:,]\x7d%@\x60" : Text).contains c

/-- An anchor or alias, after its mark. -/
def named (state : Lexing) (token : Text → Token) : Option Lexing := do
  let state ← state.saveCandidate
  let text := state.cursor.rest.drop 1
  let name := text.takeWhile isAnchorChar
  if name.isEmpty || !endsAnchor (text.dropWhile isAnchorChar) then none
  else return { state.emitOver (1 + name.length) (token name) with allowKey := false }

/-- A quoted scalar, read by the given function from after its opening quote. -/
def quotedScalar (state : Lexing) (read : Text → Option QuotedText) : Option Lexing := do
  let state ← state.saveCandidate
  match ← read (state.cursor.rest.drop 1) with
  | .closed codes rest =>
    return { state.emit (.quoted codes) with
      cursor := state.cursor.upTo rest, allowKey := false }
  | .noCharacter number => return { state.emit (.noCharacter number) with broken := true }

/-- Whether a plain scalar stops before a text. -/
def stopsPlain (inFlow : Bool) : Text → Bool
  | [] => true
  | c :: rest =>
    atGap [c] || (c == ':' && (atGap rest || (inFlow && (rest.head?.any fun d =>
      (",[]\x7b\x7d" : Text).contains d)))) || (inFlow && (",?[]\x7b\x7d" : Text).contains c)

/-- The characters up to where a plain scalar stops, and the rest. -/
def plainChunk (inFlow : Bool) : Text → Text × Text
  | [] => ([], [])
  | c :: rest =>
    if stopsPlain inFlow (c :: rest) then ([], c :: rest)
    else
      let (chunk, after) := plainChunk inFlow rest
      (c :: chunk, after)

/-- The breaks and spaces from a text on; a document mark at the start of a line ends them, and
what follows then is not part of the scalar. -/
def plainBreaks : Text → Text × Text × Bool
  | [] => ([], [], false)
  | c :: rest =>
    if c = ' ' then plainBreaks rest
    else if isBreak c then
      if atDocumentMark rest then ([], rest, true)
      else
        let (breaks, after, marked) := plainBreaks rest
        (keptBreak c :: breaks, after, marked)
    else ([], c :: rest, false)

/-- What a plain scalar leaves for the gap before its next chunk, if it may go on, what follows
the gap, and whether there was a break. -/
def plainGap (text : Text) : Option Text × Text × Bool :=
  let spaces := text.takeWhile (· == ' ')
  match text.dropWhile (· == ' ') with
  | c :: rest =>
    if isBreak c then
      if atDocumentMark rest then (none, rest, true)
      else
        let (breaks, after, marked) := plainBreaks rest
        let kept := keptBreak c
        let gap := if kept != '\n' then kept :: breaks
          else if breaks.isEmpty then [' '] else breaks
        (if marked then none else some gap, after, true)
    else (if spaces.isEmpty then none else some spaces, c :: rest, false)
  | [] => (if spaces.isEmpty then none else some spaces, [], false)

/-- The rest of a plain scalar from a cursor on: its text, the cursor after it and whether a break
was the last thing passed. The number bounds the chunks. -/
def plainFrom (inFlow : Bool) (indent : Nat) : Nat → Cursor → Text × Cursor × Bool
  | 0, cursor => ([], cursor, false)
  | chunks + 1, cursor =>
    let (chunk, after) := plainChunk inFlow cursor.rest
    if chunk.isEmpty || cursor.rest.head? == some '#' then ([], cursor, false)
    else
      let (gap, rest, broke) := plainGap after
      let next := cursor.upTo rest
      match gap with
      | none => (chunk, next, broke)
      | some gap =>
        if rest.head? == some '#' || (!inFlow && next.column < indent) then (chunk, next, broke)
        else
          let (more, final, brokeLater) := plainFrom inFlow indent chunks next
          if more.isEmpty then (chunk, final, broke)
          else (chunk ++ gap ++ more, final, brokeLater)

/-- Whether a plain scalar can start with a character before a text. -/
def startsPlain (inFlow : Bool) (c : Char) (rest : Text) : Bool :=
  (!atGap [c] && !("-?:,[]\x7b\x7d#&*!|>'\"%@\x60" : Text).contains c) ||
    (!atGap rest && (c == '-' || (!inFlow && (c == '?' || c == ':'))))

/-- A plain scalar. -/
def plainScalar (state : Lexing) : Option Lexing := do
  let state ← state.saveCandidate
  let indent := (state.indents.head?.map (· + 1)).getD 0
  let (text, cursor, broke) :=
    plainFrom (state.flow != 0) indent state.cursor.rest.length state.cursor
  return { state.emit (.plain text) with cursor, allowKey := broke }

/-- Read the token that starts with a character. -/
def fetch (state : Lexing) (c : Char) (rest : Text) : Option Lexing :=
  let inFlow := state.flow != 0
  let atLineStart := state.cursor.column == 0
  if c = '%' && atLineStart then none
  else if c = '-' && atLineStart && atDocumentMark (c :: rest) then state.documentMark .documentStart
  else if c = '.' && atLineStart && atDocumentMark (c :: rest) then state.documentMark .documentEnd
  else if c = '[' then state.openFlow .flowSequence
  else if c = '\x7b' then state.openFlow .flowMapping
  else if c = ']' then state.closeFlow .flowSequenceEnd
  else if c = '\x7d' then state.closeFlow .flowMappingEnd
  else if c = ',' then state.flowEntry
  else if c = '-' && atGap rest then state.blockEntry
  else if c = '?' && (inFlow || atGap rest) then state.explicitKey
  else if c = ':' && (inFlow || atGap rest) then state.valueMark
  else if c = '*' then state.named .alias
  else if c = '&' then state.named .anchor
  else if c = '\'' then state.quotedScalar (singleQuoted .none)
  else if c = '"' then state.quotedScalar (doubleQuoted (.text .none))
  else if startsPlain inFlow c rest then state.plainScalar
  else none

/-- Whether no more tokens are read: the reading was broken off, or more collections are open than
are followed. -/
def isOver (state : Lexing) : Bool :=
  state.broken || deepest < state.flow + state.indents.length

/-- Read all tokens. The number bounds them. -/
def finish : Nat → Lexing → Option (List Token)
  | 0, _ => none
  | steps + 1, state =>
    if state.isOver then some state.tokens.reverse
    else do
      let state ← state.toNext.dropStale
      let state := state.unwind state.cursor.column
      match state.cursor.rest with
      | [] => return (← state.unwindAll.dropCandidate).tokens.reverse
      | c :: rest => finish steps (← state.fetch c rest)

end Lexing

/-- Characters that YAML text can hold. -/
def isPrintable (c : Char) : Bool :=
  let n := c.toNat
  n == 9 || n == 10 || n == 13 || (32 ≤ n && n ≤ 126) || n == 0x85 ||
    (0xA0 ≤ n && n ≤ 0xD7FF) || (0xE000 ≤ n && n ≤ 0xFFFD) || 0x10000 ≤ n

/-- The tokens of a text. -/
def tokens? (text : Text) : Option (List Token) :=
  if text.all isPrintable then Lexing.finish (text.length + 1) { cursor := { rest := text } }
  else none

end EnvFiles.Yaml

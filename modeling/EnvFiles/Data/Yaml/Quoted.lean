import EnvFiles.Data.Numeral
import EnvFiles.Data.Yaml.Cursor

/-!
# Quoted YAML scalars

Inside quotes a single line break between words counts as a space, and of several breaks all but
the first stay. Blanks around breaks do not count. In double quotes a backslash starts an
escape; before a break it joins the lines without a space. In single quotes a doubled quote
stands for one. An escape can give half of a surrogate pair, or a number that is too large for a
character.
-/

namespace EnvFiles.Yaml

/-- What was passed since the last character that counts. -/
inductive Gap
  | none
  /-- Blanks within a line. -/
  | blanks (passed : Text)
  /-- A line break, and the breaks after it. -/
  | breaks (first : Char) (more : Text)
  /-- The breaks after one that was escaped. -/
  | escaped (more : Text)

/-- A line break as it is kept. -/
def keptBreak (c : Char) : Char := if c == '\u2028' || c == '\u2029' then c else '\n'

/-- What a gap leaves in the text. -/
def Gap.text : Gap → Text
  | .none => []
  | .blanks passed => passed
  | .breaks first more =>
    if first != '\n' then first :: more else if more.isEmpty then [' '] else more
  | .escaped more => more

/-- A gap with one more blank. Blanks next to breaks do not count. -/
def Gap.addBlank (c : Char) : Gap → Gap
  | .none => .blanks [c]
  | .blanks passed => .blanks (passed ++ [c])
  | gap => gap

/-- A gap with one more break. -/
def Gap.addBreak (c : Char) : Gap → Gap
  | .breaks first more => .breaks first (more ++ [keptBreak c])
  | .escaped more => .escaped (more ++ [keptBreak c])
  | _ => .breaks (keptBreak c) []

/-- The character of an escape of one letter. -/
def escapeChar? (c : Char) : Option Char :=
  [('0', '\x00'), ('a', '\x07'), ('b', '\x08'), ('t', '\t'), ('\t', '\t'), ('n', '\n'),
    ('v', '\x0b'), ('f', '\x0c'), ('r', '\r'), ('e', '\x1b'), (' ', ' '), ('"', '"'),
    ('\\', '\\'), ('/', '/'), ('N', '\x85'), ('_', '\xa0'), ('L', '\u2028'),
    ('P', '\u2029')].lookup c

/-- The number of hexadecimal digits of an escape. -/
def escapeDigits? (c : Char) : Option Nat := [('x', 2), ('u', 4), ('U', 8)].lookup c

/-- Where a reader of double quotes stands: in the text, after a backslash, or within the digits
of an escape. -/
inductive QuoteMode
  | text (gap : Gap)
  | escape
  | digits (left : Nat) (value : Nat)

/-- What reading a scalar from after its opening quote gives: the numbers of its text and what
follows its closing quote, or a number that is too large for a character. -/
inductive QuotedText
  | closed (codes : Codes) (rest : Text)
  | noCharacter (number : Nat)

/-- Put numbers before what was read. -/
def beforeCodes (codes : Codes) (read : Option QuotedText) : Option QuotedText :=
  read.map fun
    | .closed more rest => .closed (codes ++ more) rest
    | .noCharacter number => .noCharacter number

/-- Put characters before what was read. -/
def before (text : Text) (read : Option QuotedText) : Option QuotedText :=
  beforeCodes (Codes.ofText text) read

/-- The rest of a scalar in double quotes. -/
def doubleQuoted : QuoteMode → Text → Option QuotedText
  | _, [] => none
  | .text gap, c :: rest =>
    if isBlank c then doubleQuoted (.text (gap.addBlank c)) rest
    else if isBreak c then
      if atDocumentMark rest then none else doubleQuoted (.text (gap.addBreak c)) rest
    else if c = '"' then some (.closed (Codes.ofText gap.text) rest)
    else if c = '\\' then before gap.text (doubleQuoted .escape rest)
    else before (gap.text ++ [c]) (doubleQuoted (.text .none) rest)
  | .escape, c :: rest =>
    if isBreak c then
      if atDocumentMark rest then none else doubleQuoted (.text (.escaped [])) rest
    else match escapeChar? c, escapeDigits? c with
      | some char, _ => before [char] (doubleQuoted (.text .none) rest)
      | none, some count => doubleQuoted (.digits count 0) rest
      | none, none => none
  | .digits left value, c :: rest =>
    match Numeral.hexDigit? c with
    | none => none
    | some digit =>
      let value := 16 * value + digit
      if left ≤ 1 then
        if value < 0x110000 then beforeCodes [value] (doubleQuoted (.text .none) rest)
        else some (.noCharacter value)
      else doubleQuoted (.digits (left - 1) value) rest

/-- The rest of a scalar in single quotes. -/
def singleQuoted (gap : Gap) : Text → Option QuotedText
  | [] => none
  | '\'' :: '\'' :: rest => before (gap.text ++ ['\'']) (singleQuoted .none rest)
  | '\'' :: rest => some (.closed (Codes.ofText gap.text) rest)
  | c :: rest =>
    if isBlank c then singleQuoted (gap.addBlank c) rest
    else if isBreak c then
      if atDocumentMark rest then none else singleQuoted (gap.addBreak c) rest
    else before (gap.text ++ [c]) (singleQuoted .none rest)

end EnvFiles.Yaml

import EnvFiles.Text.Invisible

/-!
# Texts in quotes

A quoted text stands between single quotes, or between double quotes when it holds a single
quote and no double one. The quote in use, the backslash and every character that shows nothing
of its own are written as escapes, so a quoted text is always one visible line.
-/

namespace EnvFiles.Text

/-- The last `width` digits of a number to the base sixteen. -/
def hexDigits (width n : Nat) : Text :=
  let digits := Nat.toDigits 16 n
  List.replicate (width - digits.length) '0' ++ digits

/-- How one character is written between the given quotes. -/
def escapeIn (quote c : Char) : Text :=
  let n := c.toNat
  if c = quote || c = '\\' then ['\\', c]
  else if c = '\n' then "\\n"
  else if c = '\r' then "\\r"
  else if c = '\t' then "\\t"
  else if isInvisible c then
    if n < 256 then "\\x" ++ hexDigits 2 n
    else if n < 65536 then "\\u" ++ hexDigits 4 n
    else "\\U" ++ hexDigits 8 n
  else [c]

/-- The quote that a text stands between. -/
def quoteFor (text : Text) : Char :=
  if text.contains '\'' && !text.contains '"' then '"' else '\''

/-- The text between quotes, with escapes where they are needed. -/
def quoted (text : Text) : Text :=
  let quote := quoteFor text
  quote :: (text.flatMap (escapeIn quote) ++ [quote])

end EnvFiles.Text

import EnvFiles.Text.Quoted

/-!
# Texts as numbers

An escape gives a number, and the numbers of surrogate halves are those of no character. A text
that is read from escapes is therefore a list of numbers first; it becomes a text when every
number is that of a character. Where a text is needed in any case, two halves that stand side by
side count as the character of their pair, and the replacement character takes the place of a half
that stands alone.
-/

namespace EnvFiles

/-- The numbers that a text from escapes is made of. -/
abbrev Codes := List Nat

namespace Codes

/-- The numbers of the characters of a text. -/
def ofText (text : Text) : Codes := text.map Char.toNat

/-- Whether a number is the first half of a surrogate pair. -/
def isHighHalf (code : Nat) : Bool := 0xD800 ≤ code && code < 0xDC00

/-- Whether a number is the second half of a surrogate pair. -/
def isLowHalf (code : Nat) : Bool := 0xDC00 ≤ code && code < 0xE000

/-- The number of the character of a surrogate pair. -/
def ofPair (high low : Nat) : Nat := 0x10000 + 1024 * (high - 0xD800) + (low - 0xDC00)

/-- The character of a number, if there is one. -/
def char? (code : Nat) : Option Char := if code.isValidChar then some (.ofNat code) else none

/-- The text, if every number is that of a character. -/
def text? (codes : Codes) : Option Text := codes.mapM char?

/-- The text with every pair of halves as a character, and without halves that stand alone. -/
def mended : Codes → Text
  | high :: low :: rest =>
    if isHighHalf high && isLowHalf low then Char.ofNat (ofPair high low) :: mended rest
    else (char? high).getD '\ufffd' :: mended (low :: rest)
  | [code] => [(char? code).getD '\ufffd']
  | [] => []

/-- How one number is written between the given quotes. -/
def escapeIn (quote : Char) (code : Nat) : Text :=
  match char? code with
  | some c => Text.escapeIn quote c
  | none => "\\u" ++ Text.hexDigits 4 code

/-- The text between quotes, with escapes where they are needed. -/
def quoted (codes : Codes) : Text :=
  let quote := Text.quoteFor codes.mended
  quote :: (codes.flatMap (escapeIn quote) ++ [quote])

end Codes
end EnvFiles

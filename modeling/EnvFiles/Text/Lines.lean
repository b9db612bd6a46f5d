import EnvFiles.Text.Basic

/-!
# Blank characters and lines

A character is blank when it separates words in some script: the ASCII blanks and control
separators, the no-break space and the space separators of the character standard. A line
ends at any character that separates lines or paragraphs, a carriage return and the line feed
after it being one end. The last line needs no end, and the empty text has no line.
-/

namespace EnvFiles.Text

/-- Blank characters. -/
def isBlank (c : Char) : Bool :=
  let n := c.toNat
  (9 ≤ n && n ≤ 13) || (28 ≤ n && n ≤ 32) || n == 0x85 || n == 0xA0 || n == 0x1680 ||
    (0x2000 ≤ n && n ≤ 0x200A) || n == 0x2028 || n == 0x2029 || n == 0x202F || n == 0x205F ||
    n == 0x3000

/-- Characters that end a line. -/
def isLineEnd (c : Char) : Bool :=
  let n := c.toNat
  (10 ≤ n && n ≤ 13) || (28 ≤ n && n ≤ 30) || n == 0x85 || n == 0x2028 || n == 0x2029

/-- A text that holds no line end. -/
def isOneLine (text : Text) : Bool := text.all fun c => !isLineEnd c

/-- The text without its leading blanks. -/
def trimStart (text : Text) : Text := text.dropWhile isBlank

/-- The text without its trailing blanks. -/
def trimEnd : Text → Text
  | [] => []
  | c :: rest => match trimEnd rest with
    | [] => if isBlank c then [] else [c]
    | d :: kept => c :: d :: kept

/-- The text without blanks at either end. -/
def trim (text : Text) : Text := trimEnd (trimStart text)

/-- The lines of a text, without their ends. -/
def lines : Text → List Text
  | [] => []
  | '\r' :: '\n' :: rest => [] :: lines rest
  | c :: rest =>
    if isLineEnd c then [] :: lines rest
    else match lines rest with
      | [] => [[c]]
      | line :: more => (c :: line) :: more

/-- Each run of blanks becomes one space. The flag tells whether a run is under way. -/
def collapseFrom (inRun : Bool) : Text → Text
  | [] => []
  | c :: rest =>
    if isBlank c then
      if inRun then collapseFrom true rest else ' ' :: collapseFrom true rest
    else c :: collapseFrom false rest

/-- The words of the text with single spaces between them and none at the ends. -/
def normaliseBlanks (text : Text) : Text := trim (collapseFrom false text)

/-- A line feed ends a line, whether it was written as carriage return, line feed or both. -/
def unifyNewlines : Text → Text
  | [] => []
  | '\r' :: '\n' :: rest => '\n' :: unifyNewlines rest
  | '\r' :: rest => '\n' :: unifyNewlines rest
  | c :: rest => c :: unifyNewlines rest

end EnvFiles.Text

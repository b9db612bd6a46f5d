/-!
# Text as a list of characters

Names, values, comments and whole files are lists of characters, so that a law about lines,
names or quotes is a law about lists. A string literal stands for the list of its characters
wherever a text is expected. This module holds the operations that look at no particular
character class.
-/

namespace EnvFiles

/-- A text is the list of its characters. -/
abbrev Text := List Char

instance : Coe String Text := ⟨String.toList⟩

namespace Text

/-- The parts in order, with `separator` between neighbours. -/
def join (separator : Text) : List Text → Text
  | [] => []
  | [part] => part
  | part :: next :: rest => part ++ (separator ++ join separator (next :: rest))

/-- The decimal digits of a natural number. -/
def ofNat (n : Nat) : Text := Nat.toDigits 10 n

/-- The pieces between the occurrences of `separator`; there is always at least one. -/
def splitAt (separator : Char) : Text → List Text
  | [] => [[]]
  | c :: rest =>
    if c = separator then [] :: splitAt separator rest
    else match splitAt separator rest with
      | [] => [[c]]
      | piece :: pieces => (c :: piece) :: pieces

/-- What follows `start` in `text`, when `text` begins with it. -/
def dropStart? : (start text : Text) → Option Text
  | [], text => some text
  | _ :: _, [] => none
  | c :: start, d :: text => if c = d then dropStart? start text else none

/-- The text without the first occurrence of `part`; an empty part changes nothing. -/
def eraseFirst (part : Text) : Text → Text
  | [] => []
  | c :: rest =>
    match dropStart? part (c :: rest) with
    | some after => after
    | none => c :: eraseFirst part rest

/-- Every occurrence of `part`, left to right and without overlap, replaced by `new`. The
counter runs over the rest of an occurrence that has been replaced. -/
def replaceFrom (part new : Text) : Nat → Text → Text
  | _, [] => []
  | skipped + 1, _ :: rest => replaceFrom part new skipped rest
  | 0, c :: rest =>
    match dropStart? part (c :: rest) with
    | some _ => new ++ replaceFrom part new (part.length - 1) rest
    | none => c :: replaceFrom part new 0 rest

/-- Every occurrence of a non-empty `part` replaced by `new`. -/
def replaceAll (part new text : Text) : Text :=
  if part.isEmpty then text else replaceFrom part new 0 text

/-- The first success of `attempt`, tried at every position from the left, the end included. -/
def firstMatch {α : Type} (attempt : Text → Option α) : Text → Option α
  | [] => attempt []
  | c :: rest => (attempt (c :: rest)).or (firstMatch attempt rest)

/-- A text with ASCII capital letters made small. -/
def asciiLower (text : Text) : Text := text.map Char.toLower

/-- The order of texts: by the code points of their characters, a beginning before the whole. -/
def precedes : Text → Text → Bool
  | [], _ => true
  | _ :: _, [] => false
  | c :: s, d :: t => if c = d then precedes s t else decide (c < d)

theorem dropStart?_eq_some_iff {start text rest : Text} :
    dropStart? start text = some rest ↔ text = start ++ rest := by
  induction start generalizing text with
  | nil => simp [dropStart?, eq_comm]
  | cons c start ih =>
    cases text with
    | nil => simp [dropStart?]
    | cons d text =>
      by_cases h : c = d
      · simp [dropStart?, h, ih]
      · simp [dropStart?, h, eq_comm]

end Text
end EnvFiles

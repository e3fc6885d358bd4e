/-!
# What is wrong with a JSON text

Why a text is no JSON, and where.  A place is held as the text from the place on, as readers
find it; `Fault.message` counts lines and columns.
-/

namespace StyleCascade.Json

/-- Why a text is no JSON. -/
inductive Problem where
  /-- The text starts with a byte order mark. -/
  | byteOrderMark
  /-- A value should stand here. -/
  | expectedValue
  /-- The name of a member should stand here. -/
  | expectedName
  /-- A colon should stand here. -/
  | expectedColon
  /-- A comma or the closing bracket should stand here. -/
  | expectedComma
  /-- Something stands behind the value. -/
  | extraData
  /-- A text that starts here is not closed. -/
  | unterminatedText
  /-- A control character inside a text. -/
  | controlCharacter
  /-- A backslash before a character that it cannot escape. -/
  | badEscape
  /-- An escape by code unit without four hexadecimal digits. -/
  | badUnicodeEscape
  /-- A whole number with more digits than are read. -/
  | tooManyDigits (count : Nat)
  deriving Repr, DecidableEq

/-- A problem and the text from its place on. -/
structure Fault where
  /-- What is wrong. -/
  problem : Problem
  /-- The text from the place on where it is wrong. -/
  place : List Char
  deriving Repr, DecidableEq

/-- The greatest number of digits that a whole number may have. -/
def maxDigits : Nat := 4300

/-- The wording of a problem. -/
def Problem.text : Problem → String
  | byteOrderMark => "Unexpected UTF-8 BOM (decode using utf-8-sig)"
  | expectedValue => "Expecting value"
  | expectedName => "Expecting property name enclosed in double quotes"
  | expectedColon => "Expecting ':' delimiter"
  | expectedComma => "Expecting ',' delimiter"
  | extraData => "Extra data"
  | unterminatedText => "Unterminated string starting at"
  | controlCharacter => "Invalid control character at"
  | badEscape => "Invalid \\escape"
  | badUnicodeEscape => "Invalid \\uXXXX escape"
  | tooManyDigits count =>
    "Exceeds the limit (" ++ toString maxDigits ++
      " digits) for integer string conversion: value has " ++ toString count ++
      " digits; use sys.set_int_max_str_digits() to increase the limit"

/-- The place of a fault in the text `s`: the line and the column, from one, and the number of
characters before it. -/
def Fault.location (s : List Char) (fault : Fault) : Nat × Nat × Nat :=
  let before := s.take (s.length - fault.place.length)
  (before.count '\n' + 1, (before.reverse.takeWhile (· != '\n')).length + 1, before.length)

/-- The wording of a fault in the text `s`, with its place. -/
def Fault.message (s : List Char) (fault : Fault) : String :=
  let (line, column, offset) := fault.location s
  fault.problem.text ++ ": line " ++ toString line ++ " column " ++ toString column ++ " (char " ++
    toString offset ++ ")"

end StyleCascade.Json

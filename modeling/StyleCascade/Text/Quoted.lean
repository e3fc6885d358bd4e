import StyleCascade.Text.Printable

/-!
# Quoted text

A text between quotation marks, as messages show it: in single quotes, or in double quotes where
it holds single quotes and no double ones.  The backslash, the quotation mark in use and the
three common controls are escaped by a letter, and every other character that does not show by
its code point in hexadecimal.

* `hex` — a number in lower-case hexadecimal of a given width.
* `escape` — one character inside the quotation marks.
* `quoted` — the quoted text.
-/

namespace StyleCascade.Text

/-- A number in lower-case hexadecimal, with zeros in front up to a width. -/
def hex (width n : Nat) : List Char :=
  let digits := Nat.toDigits 16 n
  List.replicate (width - digits.length) '0' ++ digits

/-- A character inside the given quotation marks. -/
def escape (quote c : Char) : List Char :=
  if c == quote || c == '\\' then ['\\', c]
  else if c == '\n' then ['\\', 'n']
  else if c == '\r' then ['\\', 'r']
  else if c == '\t' then ['\\', 't']
  else if isPrintable c then [c]
  else if c.toNat < 0x100 then '\\' :: 'x' :: hex 2 c.toNat
  else if c.toNat < 0x10000 then '\\' :: 'u' :: hex 4 c.toNat
  else '\\' :: 'U' :: hex 8 c.toNat

/-- The quotation mark for a text. -/
def quoteFor (s : List Char) : Char := if s.contains '\'' && !s.contains '"' then '"' else '\''

/-- A text between quotation marks. -/
def quoted (s : String) : String :=
  let quote := quoteFor s.toList
  String.ofList (quote :: s.toList.flatMap (escape quote) ++ [quote])

example : quoted "it's" = "\"it's\"" := by decide +kernel

example : quoted "a\n\u00a0é" = "'a\\n\\xa0é'" := by decide +kernel

end StyleCascade.Text

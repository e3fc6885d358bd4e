/-!
# Blank characters

The white space of selectors and attribute values: the ASCII controls from tab to carriage
return and from file separator to unit separator, the space, and the Unicode separators.

* `isBlank` — the class, decided without a table.
* `trim` — a text without the blanks at its two ends.
* `runs` — the maximal runs of characters between gaps, in order; `words` — those between
  blanks.
-/

namespace StyleCascade.Text

/-- The characters that separate words: U+0009–000D, U+001C–0020, U+0085, U+00A0, U+1680,
U+2000–200A, U+2028, U+2029, U+202F, U+205F and U+3000. -/
def isBlank (c : Char) : Bool :=
  let n := c.toNat
  (9 ≤ n && n ≤ 13) || (28 ≤ n && n ≤ 32) || n == 0x85 || n == 0xA0 || n == 0x1680 ||
    (0x2000 ≤ n && n ≤ 0x200A) || n == 0x2028 || n == 0x2029 || n == 0x202F || n == 0x205F ||
    n == 0x3000

/-- A text without its leading blanks. -/
def trimStart (s : List Char) : List Char := s.dropWhile isBlank

/-- A text without its trailing blanks. -/
def trimEnd (s : List Char) : List Char := (s.reverse.dropWhile isBlank).reverse

/-- A text without the blanks at its two ends. -/
def trim (s : List Char) : List Char := trimEnd (trimStart s)

/-- Whether a text holds nothing but blanks. -/
def allBlank (s : List Char) : Bool := s.all isBlank

/-- Put a character at the front of the first word of a list. -/
def extendFirst (c : Char) : List (List Char) → List (List Char)
  | [] => [[c]]
  | w :: ws => (c :: w) :: ws

/-- The maximal runs of characters that are no gaps. -/
def runs (isGap : Char → Bool) : List Char → List (List Char)
  | [] => []
  | c :: cs =>
    if isGap c then runs isGap cs
    else if cs.head?.all isGap then [c] :: runs isGap cs
    else extendFirst c (runs isGap cs)

/-- The words of a text: its maximal runs of characters that are not blank. -/
def words (s : List Char) : List (List Char) := runs isBlank s

/-! ## Small facts -/

@[simp] theorem trim_nil : trim [] = [] := rfl

@[simp] theorem words_nil : words [] = [] := rfl

example : words "  a b\tc ".toList = ["a".toList, "b".toList, "c".toList] := by decide

example : trim " \u00a0a b\n".toList = "a b".toList := by decide

end StyleCascade.Text

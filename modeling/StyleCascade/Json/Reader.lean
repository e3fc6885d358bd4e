import StyleCascade.Json.Fault
import StyleCascade.Value.Basic

/-!
# Reading JSON

A text of the JSON data format as a value.  Whole numbers are kept exactly, numbers with a point
or an exponent are rounded to the nearest floating point number, and `NaN` and the infinities
are read too.  A member whose name comes again keeps its first place and takes its last value.

* `readText`, `readNumber`, `readWord` — the values without parts.
* `readValue`, `readItems`, `readMembers` — values at the head of a text, each leaving a shorter
  text.
* `read` — a whole text.
-/

namespace StyleCascade.Json

/-- The text behind what was read: shorter than the text that it was read from. -/
abbrev Rest (s : List Char) := { rest : List Char // rest.length < s.length }

/-- The blanks between tokens. -/
def isBlank (c : Char) : Bool := c == ' ' || c == '\t' || c == '\n' || c == '\r'

/-- A text without the blanks at its head. -/
def skipBlanks (s : List Char) : List Char := s.dropWhile isBlank

theorem length_skipBlanks_le (s : List Char) : (skipBlanks s).length ≤ s.length :=
  (List.dropWhile_suffix isBlank).length_le

/-- The first character of a text that is no blank, and the text behind it up to the next
character that is no blank. -/
def token? (s : List Char) : Option (Char × Rest s) :=
  match h : skipBlanks s with
  | [] => none
  | c :: cs =>
    have hs := length_skipBlanks_le s
    have hcs := length_skipBlanks_le cs
    some (c, ⟨skipBlanks cs, by rw [h, List.length_cons] at hs; omega⟩)

/-! ## Texts -/

/-- The value of a hexadecimal digit. -/
def hexDigit? (c : Char) : Option Nat :=
  if '0' ≤ c && c ≤ '9' then some (c.toNat - '0'.toNat)
  else if 'a' ≤ c && c ≤ 'f' then some (c.toNat - 'a'.toNat + 10)
  else if 'A' ≤ c && c ≤ 'F' then some (c.toNat - 'A'.toNat + 10)
  else none

/-- The number that four hexadecimal digits write. -/
def hexUnit? (a b c d : Char) : Option Nat := do
  return (← hexDigit? a) * 4096 + (← hexDigit? b) * 256 + (← hexDigit? c) * 16 + (← hexDigit? d)

/-- Whether a code unit is the first of a pair. -/
def isHighSurrogate (n : Nat) : Bool := 0xD800 ≤ n && n < 0xDC00

/-- Whether a code unit is the second of a pair. -/
def isLowSurrogate (n : Nat) : Bool := 0xDC00 ≤ n && n < 0xE000

/-- The character of a code unit.  One of a pair that stands alone is no character; the
replacement character takes its place. -/
def charOfUnit (n : Nat) : Char :=
  if isHighSurrogate n || isLowSurrogate n then '\ufffd' else Char.ofNat n

/-- The character that an escape of one letter stands for. -/
def simpleEscape? : Char → Option Char
  | '"' => some '"'
  | '\\' => some '\\'
  | '/' => some '/'
  | 'b' => some '\x08'
  | 'f' => some '\x0c'
  | 'n' => some '\n'
  | 'r' => some '\r'
  | 't' => some '\t'
  | _ => none

/-- The code unit at the head of a text that starts behind the `u` of an escape.  At least one
character has to follow it; `place` is the text from the `u` on. -/
def readUnit (place : List Char) : List Char → Except Fault Nat
  | a :: b :: c :: d :: _ :: _ =>
    match hexUnit? a b c d with
    | some unit => .ok unit
    | none => .error ⟨.badUnicodeEscape, place⟩
  | _ => .error ⟨.badUnicodeEscape, place⟩

/-- The character of an escape by code unit, and how many characters it takes behind the first
`u`.  Two escapes that make a pair are one character. -/
def readUnicodeEscape (place cs : List Char) : Except Fault (Char × Nat) := do
  let unit ← readUnit place cs
  match cs.drop 4 with
  | '\\' :: 'u' :: next =>
    if isHighSurrogate unit && 4 < next.length then
      let second ← readUnit ('u' :: next) next
      if isLowSurrogate second then
        return (Char.ofNat (0x10000 + (unit - 0xD800) * 0x400 + (second - 0xDC00)), 10)
      else return (charOfUnit unit, 4)
    else return (charOfUnit unit, 4)
  | _ => return (charOfUnit unit, 4)

/-- The characters of a text up to its closing quote, and what stands behind it; `opening` is
the text from the opening quote on. -/
def readText (opening : List Char) (s : List Char) : Except Fault (List Char × List Char) :=
  match s with
  | [] => .error ⟨.unterminatedText, opening⟩
  | '"' :: rest => .ok ([], rest)
  | '\\' :: [] => .error ⟨.unterminatedText, opening⟩
  | '\\' :: 'u' :: cs =>
    match readUnicodeEscape ('u' :: cs) cs with
    | .error fault => .error fault
    | .ok (c, taken) =>
      match readText opening (cs.drop taken) with
      | .error fault => .error fault
      | .ok (chars, rest) => .ok (c :: chars, rest)
  | '\\' :: e :: cs =>
    match simpleEscape? e with
    | none => .error ⟨.badEscape, '\\' :: e :: cs⟩
    | some c =>
      match readText opening cs with
      | .error fault => .error fault
      | .ok (chars, rest) => .ok (c :: chars, rest)
  | c :: cs =>
    if c.toNat < 32 then .error ⟨.controlCharacter, c :: cs⟩
    else
      match readText opening cs with
      | .error fault => .error fault
      | .ok (chars, rest) => .ok (c :: chars, rest)
termination_by s.length
decreasing_by all_goals simp only [List.length_cons, List.length_drop]; omega

/-! ## Numbers and words -/

/-- The digits at the head of a text, and the rest. -/
def digitSpan (s : List Char) : List Char × List Char :=
  (s.takeWhile Char.isDigit, s.dropWhile Char.isDigit)

/-- The number that digits write. -/
def digitsValue (digits : List Char) : Nat :=
  digits.foldl (fun n d => 10 * n + (d.toNat - '0'.toNat)) 0

/-- The digits of a whole part at the head of a text: a zero, or digits that do not start with
one. -/
def wholePart? : List Char → Option (List Char × List Char)
  | '0' :: rest => some (['0'], rest)
  | s =>
    match digitSpan s with
    | ([], _) => none
    | whole => some whole

/-- The digits behind a point at the head of a text; none where no point with digits is. -/
def fractionPart : List Char → List Char × List Char
  | '.' :: s =>
    match digitSpan s with
    | ([], _) => ([], '.' :: s)
    | fraction => fraction
  | s => ([], s)

/-- The sign of an exponent: whether it is negative, and the rest. -/
def exponentSign : List Char → Bool × List Char
  | '-' :: s => (true, s)
  | '+' :: s => (false, s)
  | s => (false, s)

/-- The exponent at the head of a text, if there is one. -/
def exponentPart : List Char → Option Int × List Char
  | c :: s =>
    if c == 'e' || c == 'E' then
      let (negative, digits) := exponentSign s
      match digitSpan digits with
      | ([], _) => (none, c :: s)
      | (digits, rest) =>
        let e : Int := digitsValue digits
        (some (if negative then -e else e), rest)
    else (none, c :: s)
  | [] => (none, [])

/-- The number at the head of a text.  With a point or an exponent it is a floating point
number, without them a whole one. -/
def readNumber (s : List Char) : Except Fault (Value × List Char) :=
  let (negative, unsigned) :=
    match s with
    | '-' :: cs => (true, cs)
    | _ => (false, s)
  match wholePart? unsigned with
  | none => .error ⟨.expectedValue, s⟩
  | some (whole, rest) =>
    let (fraction, rest) := fractionPart rest
    let (exponent, rest) := exponentPart rest
    if fraction.isEmpty && exponent.isNone then
      if maxDigits < whole.length then .error ⟨.tooManyDigits whole.length, s⟩
      else
        let n : Int := digitsValue whole
        .ok (.int (if negative then -n else n), rest)
    else
      let scale := exponent.getD 0 - fraction.length
      .ok (.float (.ofDecimal negative (digitsValue (whole ++ fraction)) scale), rest)

/-- The values that are written as words. -/
def wordValues : List (List Char × Value) := [
  ("null".toList, .null), ("true".toList, .bool true), ("false".toList, .bool false),
  ("NaN".toList, .float .nan), ("Infinity".toList, .float (.infinite false)),
  ("-Infinity".toList, .float (.infinite true))]

/-- The value written as a word at the head of a text. -/
def readWord? (s : List Char) : Option (Value × List Char) :=
  wordValues.findSome? fun (word, value) =>
    if word.isPrefixOf s then some (value, s.drop word.length) else none

/-- A word or a number. -/
def readScalar (s : List Char) : Except Fault (Value × List Char) :=
  match readWord? s with
  | some found => .ok found
  | none => readNumber s

/-! ## Values -/

/-- What was read at the head of a text, when what it leaves is shorter than the text.  Every
reader below takes at least one character, so none is turned away here. -/
def shorten {α : Type} (s : List Char) (found : α × List Char) : Except Fault (α × Rest s) :=
  if h : found.2.length < s.length then .ok (found.1, ⟨found.2, h⟩)
  else .error ⟨.expectedValue, s⟩

mutual

/-- The value at the head of a text. -/
def readValue (s : List Char) : Except Fault (Value × Rest s) :=
  match s with
  | '"' :: cs => do
    let (chars, rest) ← readText ('"' :: cs) cs
    shorten ('"' :: cs) (.text (String.ofList chars), rest)
  | '[' :: cs =>
    have := length_skipBlanks_le cs
    match skipBlanks cs with
    | ']' :: rest => shorten ('[' :: cs) (.list [], rest)
    | _ => do
      let (items, rest) ← readItems (skipBlanks cs)
      shorten ('[' :: cs) (.list items, rest.1)
  | '\x7b' :: cs =>
    have := length_skipBlanks_le cs
    match skipBlanks cs with
    | '\x7d' :: rest => shorten ('\x7b' :: cs) (.mapping [], rest)
    | _ => do
      let (members, rest) ← readMembers (skipBlanks cs)
      shorten ('\x7b' :: cs) (.ofMapping (Mapping.ofList members), rest.1)
  | s => do shorten s (← readScalar s)
termination_by (s.length, 0)
decreasing_by all_goals simp only [List.length_cons]; apply Prod.Lex.left; omega

/-- The items of a list, from the first one up to the closing bracket. -/
def readItems (s : List Char) : Except Fault (List Value × Rest s) := do
  let (item, ⟨rest, _⟩) ← readValue s
  match token? rest with
  | some (']', close) => shorten s ([item], close.1)
  | some (',', ⟨next, _⟩) =>
    let (items, rest) ← readItems next
    shorten s (item :: items, rest.1)
  | _ => .error ⟨.expectedComma, skipBlanks rest⟩
termination_by (s.length, 1)
decreasing_by
  · apply Prod.Lex.right; omega
  · apply Prod.Lex.left; omega

/-- The members of a mapping, from the first name up to the closing brace. -/
def readMembers (s : List Char) : Except Fault (List (String × Value) × Rest s) :=
  match s with
  | '"' :: cs => do
    let (name, ⟨behindName, _⟩) ← (readText ('"' :: cs) cs).bind (shorten ('"' :: cs))
    match token? behindName with
    | some (':', ⟨start, _⟩) =>
      let (value, ⟨rest, _⟩) ← readValue start
      let member := (String.ofList name, value)
      match token? rest with
      | some ('\x7d', close) => shorten ('"' :: cs) ([member], close.1)
      | some (',', ⟨next, _⟩) =>
        let (members, rest) ← readMembers next
        shorten ('"' :: cs) (member :: members, rest.1)
      | _ => .error ⟨.expectedComma, skipBlanks rest⟩
    | _ => .error ⟨.expectedColon, skipBlanks behindName⟩
  | s => .error ⟨.expectedName, s⟩
termination_by (s.length, 1)
decreasing_by
  · apply Prod.Lex.left; omega
  · apply Prod.Lex.left; omega

end

/-- The value that a text writes. -/
def read (s : List Char) : Except Fault Value :=
  if s.head? == some '\ufeff' then .error ⟨.byteOrderMark, s⟩
  else do
    let (value, rest) ← readValue (skipBlanks s)
    match skipBlanks rest.1 with
    | [] => return value
    | extra => .error ⟨.extraData, extra⟩

end StyleCascade.Json

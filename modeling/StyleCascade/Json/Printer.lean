import StyleCascade.Number.Shortest
import StyleCascade.Text.Quoted
import StyleCascade.Value.Basic

/-!
# Writing JSON

A value as a text of the JSON data format, in ASCII and with the members of every mapping sorted
by name.  On one line, or with every item and member on a line of its own.

* `textLiteral` — a text in double quotes.
* `Layout` — on one line or indented.
* `write` — the text of a value.
-/

namespace StyleCascade.Json

/-- One code unit as an escape. -/
def unitEscape (n : Nat) : List Char := '\\' :: 'u' :: Text.hex 4 n

/-- A character inside double quotes: what is not printable ASCII is escaped, beyond the first
plane as a pair of code units. -/
def escapeChar (c : Char) : List Char :=
  if c == '"' then ['\\', '"']
  else if c == '\\' then ['\\', '\\']
  else if c == '\n' then ['\\', 'n']
  else if c == '\r' then ['\\', 'r']
  else if c == '\t' then ['\\', 't']
  else if c == '\x08' then ['\\', 'b']
  else if c == '\x0c' then ['\\', 'f']
  else if 32 ≤ c.toNat && c.toNat < 127 then [c]
  else if c.toNat < 0x10000 then unitEscape c.toNat
  else
    let above := c.toNat - 0x10000
    unitEscape (0xD800 + above / 0x400) ++ unitEscape (0xDC00 + above % 0x400)

/-- A text in double quotes. -/
def textLiteral (s : String) : String :=
  String.ofList ('"' :: s.toList.flatMap escapeChar ++ ['"'])

/-- A floating point number; the infinities and the value that is no number have names. -/
def floatLiteral : Double → String
  | .infinite negative => if negative then "-Infinity" else "Infinity"
  | .nan => "NaN"
  | x => x.text

/-- How the parts of a value are laid out. -/
inductive Layout where
  /-- All on one line. -/
  | line
  /-- Each part on a line, indented by two blanks a level. -/
  | indented
  deriving Repr, DecidableEq

/-- The start of a line at a level, or nothing on one line. -/
def Layout.newLine (layout : Layout) (level : Nat) : String :=
  match layout with
  | line => ""
  | indented => "\n" ++ "".pushn ' ' (2 * level)

/-- What stands between two parts. -/
def Layout.separator (layout : Layout) (level : Nat) : String :=
  match layout with
  | line => ", "
  | indented => "," ++ indented.newLine level

/-- Parts between brackets. -/
def Layout.enclose (layout : Layout) (level : Nat) (opening closing : String)
    (parts : List String) : String :=
  if parts.isEmpty then opening ++ closing
  else
    opening ++ layout.newLine (level + 1) ++ (layout.separator (level + 1)).intercalate parts ++
      layout.newLine level ++ closing

/-- Members sorted by name. -/
def sortMembers (members : List (String × String)) : List (String × String) :=
  members.mergeSort fun a b => decide (a.1 ≤ b.1)

mutual

/-- The text of a value that stands at a level. -/
def writeAt (layout : Layout) (level : Nat) : Value → String
  | .null => "null"
  | .bool b => if b then "true" else "false"
  | .int n => toString n
  | .float x => floatLiteral x
  | .text s => textLiteral s
  | .list items => layout.enclose level "[" "]" (writeItems layout (level + 1) items)
  | .mapping entries =>
    layout.enclose level "\x7b" "\x7d"
      ((sortMembers (writeMembers layout (level + 1) entries)).map fun (name, text) =>
        textLiteral name ++ ": " ++ text)

/-- The texts of the items of a list. -/
def writeItems (layout : Layout) (level : Nat) : List Value → List String
  | [] => []
  | v :: vs => writeAt layout level v :: writeItems layout level vs

/-- The members of a mapping with the texts of their values. -/
def writeMembers (layout : Layout) (level : Nat) : List (String × Value) → List (String × String)
  | [] => []
  | (name, v) :: rest => (name, writeAt layout level v) :: writeMembers layout level rest

end

/-- The text of a value. -/
def write (layout : Layout) (value : Value) : String := writeAt layout 0 value

example : write .line (.mapping [("b", .int 1), ("a", .list [.null])]) =
    "\x7b\"a\": [null], \"b\": 1\x7d" := by cbv

end StyleCascade.Json

import StyleCascade.Number.Shortest
import StyleCascade.Text.Quoted
import StyleCascade.Value.Basic

/-!
# Values as text

The text that stands for a value where a text is wanted.  A text stands for itself; inside lists
and mappings texts are quoted.

* `Value.literal` — a value as it stands inside another one.
* `Value.display` — a value on its own.
-/

namespace StyleCascade

namespace Value

mutual

/-- A value as it stands inside a list or a mapping. -/
def literal : Value → String
  | null => "None"
  | bool b => if b then "True" else "False"
  | int n => toString n
  | float x => x.text
  | text s => Text.quoted s
  | list items => "[" ++ ", ".intercalate (literals items) ++ "]"
  | mapping entries => "\x7b" ++ ", ".intercalate (entryLiterals entries) ++ "\x7d"

/-- The items of a list. -/
def literals : List Value → List String
  | [] => []
  | v :: vs => literal v :: literals vs

/-- The entries of a mapping, each a quoted name and a value. -/
def entryLiterals : List (String × Value) → List String
  | [] => []
  | (name, v) :: rest => (Text.quoted name ++ ": " ++ literal v) :: entryLiterals rest

end

/-- The text that stands for a value.  A whole number is written out in full: the bound that
`Json.maxDigits` sets for the numbers of a file is not kept here. -/
def display : Value → String
  | text s => s
  | v => v.literal

@[simp] theorem display_text (s : String) : (text s).display = s := rfl

example : (list [text "a", int 1, null]).display = "['a', 1, None]" := by decide +kernel

end Value

end StyleCascade

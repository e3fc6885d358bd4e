import StyleCascade.Text.Blank

/-!
# Paths

The path of a file as it is written, in its parts.

* `Path` — the slashes in front, and the parts behind them.
* `partsOf` — the parts of a text between slashes.
* `Path.ofText`, `Path.text` — read and written, without parts that say nothing.
* `Path.name` — the last part.
-/

namespace StyleCascade

/-- A text cut at its slashes, with the empty pieces. -/
def cutAtSlashes : List Char → List (List Char)
  | [] => [[]]
  | c :: cs => if c == '/' then [] :: cutAtSlashes cs else Text.extendFirst c (cutAtSlashes cs)

/-- The parts of a text between its slashes, empty ones too. -/
def partsOf (text : String) : List String := (cutAtSlashes text.toList).map String.ofList

/-- A path in its parts. -/
structure Path where
  /-- The number of slashes in front: none where the path starts from where one is, and one or two
  where it starts at the root. -/
  slashes : Nat
  /-- The names on the way. -/
  parts : List String
  deriving Repr, DecidableEq

namespace Path

/-- The path of a text.  Empty parts and single dots are left out.  Two slashes in front are told
apart from one, and more of them are the same as one. -/
def ofText (text : String) : Path :=
  let slashes := (text.toList.takeWhile (· == '/')).length
  { slashes := if slashes ≤ 2 then slashes else 1
    parts := (partsOf text).filter fun part => part != "" && part != "." }

/-- A path as a text. -/
def text (path : Path) : String :=
  let text := "".pushn '/' path.slashes ++ "/".intercalate path.parts
  if text == "" then "." else text

/-- The last part of a path; empty where it has none. -/
def name (path : Path) : String := path.parts.getLast?.getD ""

example : ofText "///a/./b/" = ⟨1, ["a", "b"]⟩ := by decide

end Path

end StyleCascade

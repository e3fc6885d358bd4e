/-!
# Leftmost scanning

Selectors are read by looking for pieces of text: bracketed clauses, shorthands, states.  A
*recognizer* says whether a piece starts at the head of a text, given the character before it.
A scan walks a text from left to right; where the recognizer finds a piece it reports the piece
and goes on behind it, and where it finds none it reports one character.

* `Recognizer` — the piece at the head of a text, with the text behind it.
* `scan` — a text cut into pieces found and characters between them.
* `findAll`, `find?` — the pieces found, and the first of them.
* `replaceAll` — the text with every piece replaced.
-/

namespace StyleCascade.Text

/-- From the character before a text (none at the start) and the text, the piece that starts
at the text's head, if there is one, and the rest of the text behind it. -/
abbrev Recognizer (α : Type) := Option Char → List Char → Option (α × List Char)

/-- One item of a scanned text. -/
inductive Piece (α : Type) where
  /-- A piece that the recognizer found. -/
  | found (piece : α)
  /-- A character that starts no piece. -/
  | between (c : Char)
  deriving Repr, DecidableEq

/-- The scan of a text whose first `skip` characters belong to a piece reported before, and
which stands behind the character `before`. -/
def scanFrom {α : Type} (recognize : Recognizer α) :
    (skip : Nat) → (before : Option Char) → List Char → List (Piece α)
  | _, _, [] => []
  | skip + 1, _, c :: cs => scanFrom recognize skip (some c) cs
  | 0, before, c :: cs =>
    match recognize before (c :: cs) with
    | some (piece, rest) => .found piece :: scanFrom recognize (cs.length - rest.length) (some c) cs
    | none => .between c :: scanFrom recognize 0 (some c) cs

/-- A text cut into the pieces found in it and the characters between them. -/
def scan {α : Type} (recognize : Recognizer α) (s : List Char) : List (Piece α) :=
  scanFrom recognize 0 none s

/-- The piece itself, if the item is one that was found. -/
def Piece.found? {α : Type} : Piece α → Option α
  | .found piece => some piece
  | .between _ => none

/-- The text of an item, given the text of a piece. -/
def Piece.render {α : Type} (text : α → List Char) : Piece α → List Char
  | .found piece => text piece
  | .between c => [c]

/-- All pieces found in a text, from left to right and without overlaps. -/
def findAll {α : Type} (recognize : Recognizer α) (s : List Char) : List α :=
  (scan recognize s).filterMap Piece.found?

/-- The leftmost piece found in a text. -/
def find? {α : Type} (recognize : Recognizer α) (s : List Char) : Option α :=
  (findAll recognize s).head?

/-- A text with each piece found in it replaced by the text given for it. -/
def replaceAll {α : Type} (recognize : Recognizer α) (text : α → List Char) (s : List Char) :
    List Char :=
  (scan recognize s).flatMap (Piece.render text)

/-- The recognizer that tries a second one where the first finds nothing. -/
def Recognizer.orElse {α : Type} (first second : Recognizer α) : Recognizer α :=
  fun before s => (first before s).or (second before s)

/-! ## Equations of a scan -/

section
variable {α : Type} {recognize : Recognizer α}

@[simp] theorem scanFrom_nil (skip : Nat) (before : Option Char) :
    scanFrom recognize skip before [] = [] := by
  cases skip <;> rfl

@[simp] theorem scanFrom_succ (skip : Nat) (before : Option Char) (c : Char) (cs : List Char) :
    scanFrom recognize (skip + 1) before (c :: cs) = scanFrom recognize skip (some c) cs := rfl

theorem scanFrom_of_none {before : Option Char} {c : Char} {cs : List Char}
    (h : recognize before (c :: cs) = none) :
    scanFrom recognize 0 before (c :: cs) = .between c :: scanFrom recognize 0 (some c) cs := by
  rw [scanFrom]; simp [h]

theorem scanFrom_of_some {before : Option Char} {c : Char} {cs rest : List Char} {piece : α}
    (h : recognize before (c :: cs) = some (piece, rest)) :
    scanFrom recognize 0 before (c :: cs) =
      .found piece :: scanFrom recognize (cs.length - rest.length) (some c) cs := by
  rw [scanFrom]; simp [h]

/-- Skipping a text leaves the scan of what stands behind it. -/
theorem scanFrom_length_append (before : Option Char) (piece rest : List Char) :
    scanFrom recognize piece.length before (piece ++ rest) =
      scanFrom recognize 0 (piece.getLast?.or before) rest := by
  induction piece generalizing before with
  | nil => simp
  | cons c cs ih =>
    simp only [List.length_cons, List.cons_append, scanFrom_succ, ih]
    cases cs with
    | nil => simp
    | cons d ds => rw [List.getLast?_cons_cons, List.getLast?_cons]; rfl

end

end StyleCascade.Text

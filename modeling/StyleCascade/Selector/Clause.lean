import StyleCascade.Text.Scan
import StyleCascade.Selector.Attribute

/-!
# Bracketed text

Where the bracketed clauses of a selector lie, whatever they contain.  A clause runs from `[` to
the next `]` that no double quotes enclose; a bracket that is never closed is no clause.

* `clauseTail`, `clause` — the clause at the head of a text.
* `clauses` — the clauses of a text.
* `replaceClauses`, `blankClauses` — the text with its clauses replaced.
-/

namespace StyleCascade.Selector

open StyleCascade.Text

/-- The rest of a clause, up to and with its closing bracket, and the text behind it; `quoted`
says whether a quote is open. -/
def clauseTail : (quoted : Bool) → List Char → Option (List Char × List Char)
  | _, [] => none
  | quoted, c :: cs =>
    if c == ']' && !quoted then some ([c], cs)
    else (clauseTail (quoted != (c == '"')) cs).map fun (tail, rest) => (c :: tail, rest)

/-- The bracketed clause at the head of a text. -/
def clause : Recognizer (List Char)
  | _, '[' :: cs => (clauseTail false cs).map fun (tail, rest) => ('[' :: tail, rest)
  | _, _ => none

/-- The texts of the bracketed clauses of a selector, brackets included. -/
def clauses (s : List Char) : List (List Char) := findAll clause s

/-- A selector with each bracketed clause replaced by a text. -/
def replaceClauses (replacement s : List Char) : List Char :=
  replaceAll clause (fun _ => replacement) s

/-- A selector with each bracketed clause replaced by a space. -/
def blankClauses (s : List Char) : List Char := replaceClauses [' '] s

/-! ## Small facts -/

theorem clauseTail_append {quoted : Bool} {s tail rest : List Char}
    (h : clauseTail quoted s = some (tail, rest)) : tail ++ rest = s := by
  induction s generalizing quoted tail with
  | nil => simp [clauseTail] at h
  | cons c cs ih =>
    rw [clauseTail] at h
    split at h
    · obtain ⟨rfl, rfl⟩ := by simpa using h
      rfl
    · obtain ⟨⟨t, r⟩, ht, hr⟩ := Option.map_eq_some_iff.1 h
      obtain ⟨rfl, rfl⟩ := by simpa using hr
      simp [ih ht]

theorem clause_append {before : Option Char} {s piece rest : List Char}
    (h : clause before s = some (piece, rest)) : piece ++ rest = s := by
  unfold clause at h
  split at h
  · obtain ⟨⟨t, r⟩, ht, hr⟩ := Option.map_eq_some_iff.1 h
    obtain ⟨rfl, rfl⟩ := by simpa using hr
    simp [clauseTail_append ht]
  · simp at h

/-- No clause starts where there is no bracket. -/
theorem clause_of_ne {before : Option Char} {c : Char} {cs : List Char} (h : c ≠ '[') :
    clause before (c :: cs) = none := by
  unfold clause
  split
  · rename_i heq
    exact absurd (by simpa using congrArg List.head? heq) h
  · rfl

example : clauses "a[b=\"]\"][c".toList = ["[b=\"]\"]".toList] := by decide

example : blankClauses "a[b]:c[".toList = "a :c[".toList := by decide

end StyleCascade.Selector

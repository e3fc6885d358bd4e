import StyleCascade.Text.Word
import StyleCascade.Selector.Attribute

/-!
# Lexemes of a clause

The parts that a bracketed clause is made of, each read at the head of a text: fixed text, the
name of an attribute, the sign of an operator and a value in double quotes.  Every reader gives
what it read and the rest of the text.
-/

namespace StyleCascade.Selector

open StyleCascade.Text

/-- The text behind a fixed text at its head. -/
def after? : (fixed : List Char) → List Char → Option (List Char)
  | [], s => some s
  | _ :: _, [] => none
  | f :: fs, c :: cs => if f == c then after? fs cs else none

/-- The name of an attribute: an ASCII letter or an underscore and further name characters. -/
def attributeName? : List Char → Option (String × List Char)
  | [] => none
  | c :: cs =>
    if isNameStart c then
      let (name, rest) := nameSpan cs
      some (String.ofList (c :: name), rest)
    else none

/-- The sign of an operator. -/
def operator? : List Char → Option (ClauseOperator × List Char)
  | '=' :: rest => some (.equals, rest)
  | '~' :: '=' :: rest => some (.hasWord, rest)
  | '|' :: '=' :: rest => some (.dashMatch, rest)
  | '^' :: '=' :: rest => some (.startsWith, rest)
  | '$' :: '=' :: rest => some (.endsWith, rest)
  | '*' :: '=' :: rest => some (.contains, rest)
  | _ => none

/-- A value in double quotes, which holds no double quote itself. -/
def quotedValue? : List Char → Option (List Char × List Char)
  | '"' :: cs =>
    match cs.dropWhile (· != '"') with
    | _ :: rest => some (cs.takeWhile (· != '"'), rest)
    | [] => none
  | _ => none

/-! ## Small facts -/

theorem after?_eq_some_iff {fixed s rest : List Char} :
    after? fixed s = some rest ↔ s = fixed ++ rest := by
  induction fixed generalizing s with
  | nil => simp [after?, eq_comm]
  | cons f fs ih =>
    cases s with
    | nil => simp [after?]
    | cons c cs =>
      rw [after?]
      split
      · rename_i h
        rw [ih, ← eq_of_beq h]
        simp
      · rename_i h
        simp only [beq_iff_eq] at h
        simp [Ne.symm h]

/-- A sign that is written is read back. -/
theorem operator?_token {op : ClauseOperator} (h : op ≠ .present) (rest : List Char) :
    operator? (op.token.toList ++ rest) = some (op, rest) := by
  cases op with
  | present => exact absurd rfl h
  | _ => rfl

end StyleCascade.Selector

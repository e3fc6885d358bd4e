import StyleCascade.Selector.Lexeme
import StyleCascade.Selector.Shorthand

/-!
# Lenient reading

The target of any text at all.  Each part of the target is looked for on its own in the whole
selector, so the order of clauses is free and whatever is not understood is passed over.

* `targetOfChars`, `targetOf` — the target of a selector without shorthands.
* `lenientTarget` — the target of a selector as it is written: expand shorthands, then read.
-/

namespace StyleCascade.Selector

open StyleCascade.Text

/-- The tag that a text starts with: its longest run of word characters. -/
def leadingTag? (s : List Char) : Option String :=
  let tag := s.takeWhile isWord
  if tag.isEmpty then none else some (String.ofList tag)

/-- A clause that asks for a value of a given attribute, with blanks between its lexemes
allowed.  A clause with an empty value is not meant. -/
def equalsValue (name : String) : Recognizer (List Char)
  | _, '[' :: cs => do
    let rest ← after? name.toList (trimStart cs)
    let rest ← after? ['='] (trimStart rest)
    let (value, rest) ← quotedValue? (trimStart rest)
    let rest ← after? [']'] (trimStart rest)
    if value.isEmpty then none else some (value, rest)
  | _, _ => none

/-- The name of a state, behind one colon or two. -/
def stateName : Recognizer (List Char)
  | _, ':' :: cs =>
    let (name, rest) := nameSpan ((after? [':'] cs).getD cs)
    if name.isEmpty then none else some (name, rest)
  | _, _ => none

/-- A value as an attribute clause gives it: in double quotes, or bare up to a blank, a double
quote or the end of the clause. -/
def quotedOrBare (s : List Char) : List Char × List Char :=
  match quotedValue? s with
  | some quoted => quoted
  | none =>
    let bare (c : Char) : Bool := c != ']' && c != '"' && !isBlank c
    (s.takeWhile bare, s.dropWhile bare)

/-- Whether a clause names the context or the identifier: it compares one of their attributes
with a value in double quotes that is not empty. -/
def namesTarget (name : String) (op : ClauseOperator) (quoted : Bool) (value : List Char) :
    Bool :=
  (name == contextAttribute || name == identifierAttribute) && op == .equals && quoted &&
    !value.isEmpty

/-- An attribute clause, with blanks between its lexemes and a bare value allowed; nothing where
the clause names the context or the identifier. -/
def attributeClause : Recognizer (Option AttributeClause)
  | _, '[' :: cs => do
    let (name, rest) ← attributeName? (trimStart cs)
    let rest := trimStart rest
    match operator? rest with
    | none =>
      let rest ← after? [']'] rest
      return (some ⟨name, .present, none⟩, rest)
    | some (op, rest) =>
      let rest := trimStart rest
      let quoted := rest.head? == some '"'
      let (value, rest) := quotedOrBare rest
      let rest ← after? [']'] (trimStart rest)
      if namesTarget name op quoted value then return (none, rest)
      else return (some ⟨name, op, some (String.ofList value)⟩, rest)
  | _, _ => none

/-- The target of a selector without shorthands.  A selector without a tag aims at the
component `fallback`; of several contexts, identifiers or states the first one counts. -/
def targetOfChars (fallback : String) (s : List Char) : Target :=
  let s := trim s
  { component := (leadingTag? s).getD fallback
    context := (find? (equalsValue contextAttribute) s).map String.ofList
    identifier := (find? (equalsValue identifierAttribute) s).map String.ofList
    state := (find? stateName (blankClauses s)).map String.ofList
    attributes := (findAll attributeClause s).filterMap id }

/-- The target of a selector without shorthands. -/
def targetOf (fallback selector : String) : Target := targetOfChars fallback selector.toList

/-- The target of a selector as it is written. -/
def lenientTarget (known : List String) (fallback selector : String) : Target :=
  targetOf fallback (normalize known selector)

theorem lenientTarget_eq (known : List String) (fallback selector : String) :
    lenientTarget known fallback selector =
      targetOfChars fallback (normalizeChars known selector.toList) := by
  simp [lenientTarget, targetOf]

example : lenientTarget standardContexts standardComponent ":hover[a=b]" =
    ⟨"button", none, none, some "hover", [⟨"a", .equals, some "b"⟩]⟩ := by decide +kernel

end StyleCascade.Selector

import StyleCascade.Text.Word
import StyleCascade.Selector.Clause
import StyleCascade.Selector.Target

/-!
# Shorthand and its expansion

Selectors abbreviate two clauses: `#id` stands for `[data-id="id"]`, and `.name`, where `name`
is a known context, for `[data-context="name"]`.  Expansion replaces the shorthands that follow
a tag or a clause, first the identifiers and then the contexts, so that the dots of an
identifier are not read as contexts; bracketed clauses pass through as they are.

* `identifierShorthand`, `contextShorthand` — the shorthand at the head of a text.
* `expandIdentifiers`, `expandContexts` — the two passes.
* `normalize` — the selector without shorthands that expand.
-/

namespace StyleCascade.Selector

open StyleCascade.Text

/-- The attribute that holds the context of an element. -/
def contextAttribute : String := "data-context"

/-- The attribute that holds the identifier of an element. -/
def identifierAttribute : String := "data-id"

/-- The clause that asks for a value of an attribute. -/
def equalsClause (name : String) (value : List Char) : List Char :=
  '[' :: name.toList ++ ['=', '"'] ++ value ++ ['"', ']']

/-- A shorthand stands behind a word character or a closing bracket. -/
def canPrecedeShorthand : Option Char → Bool
  | some c => isWord c || c == ']'
  | none => false

/-- Whether a text is empty or starts with one of the given characters. -/
def endsOrStartsWith (marks : List Char) : List Char → Bool
  | [] => true
  | c :: _ => marks.contains c

/-- The identifier shorthand at the head of a text: `#` and names joined by dots, in front of a
state, a bracket, another identifier or the end. -/
def identifierShorthand : Recognizer (List Char)
  | before, '#' :: cs =>
    let (name, rest) := dottedSpan cs
    if canPrecedeShorthand before && cs.head?.any isName &&
        endsOrStartsWith [':', '[', '#'] rest then
      some (name, rest)
    else none
  | _, _ => none

/-- The context shorthand at the head of a text: a dot and a name, in front of another context,
a state, a bracket or the end. -/
def contextShorthand : Recognizer (List Char)
  | before, '.' :: cs =>
    let (name, rest) := nameSpan cs
    if canPrecedeShorthand before && !name.isEmpty && endsOrStartsWith ['.', ':', '['] rest then
      some (name, rest)
    else none
  | _, _ => none

/-- The clause of an identifier. -/
def identifierClause (name : List Char) : List Char := equalsClause identifierAttribute name

/-- The clause of a context that is known; a name that is not stays as it is written. -/
def contextClause (known : List String) (name : List Char) : List Char :=
  if known.contains (String.ofList name) then equalsClause contextAttribute name else '.' :: name

/-- A clause, which stands for itself, or a shorthand, which stands for the text given. -/
def clauseOr (shorthand : Recognizer (List Char)) (expansion : List Char → List Char) :
    Recognizer (List Char) :=
  Recognizer.orElse clause fun before s =>
    (shorthand before s).map fun (name, rest) => (expansion name, rest)

/-- A selector with its identifier shorthands expanded. -/
def expandIdentifiers (s : List Char) : List Char :=
  replaceAll (clauseOr identifierShorthand identifierClause) id s

/-- A selector with the shorthands of known contexts expanded. -/
def expandContexts (known : List String) (s : List Char) : List Char :=
  replaceAll (clauseOr contextShorthand (contextClause known)) id s

/-- A selector trimmed and with its shorthands expanded. -/
def normalizeChars (known : List String) (s : List Char) : List Char :=
  expandContexts known (expandIdentifiers (trim s))

/-- A selector trimmed and with its shorthands expanded, in canonical attribute clauses. -/
def normalize (known : List String) (selector : String) : String :=
  String.ofList (normalizeChars known selector.toList)

@[simp] theorem toList_normalize (known : List String) (selector : String) :
    (normalize known selector).toList = normalizeChars known selector.toList := by
  simp [normalize]

example : normalize ["chat"] " button.chat#a.b:hover" =
    "button[data-context=\"chat\"][data-id=\"a.b\"]:hover" := by decide +kernel

end StyleCascade.Selector

import StyleCascade.Check.Basic
import StyleCascade.Selector.Lenient
import StyleCascade.Selector.Strict

/-!
# Checks of selectors

Warnings about selectors that will not do what they seem to.  Blank selectors are left to the
check of their own.

* `Check.combinators` — no selector relates several elements.
* `Check.grammar` — every selector keeps to the grammar.
* `Check.tags` — every selector has a tag.
* `Check.contexts` — every context that stands behind a tag is a known one.
* `Check.duplicates` — no two selectors aim at the same target.
-/

namespace StyleCascade

open StyleCascade.Text StyleCascade.Selector

/-! ## Combinators -/

/-- Whether a selector relates several elements: outside its clauses it has one of the signs
`>`, `+` and `~`, or it is made of several words. -/
def hasCombinator (selector : String) : Bool :=
  let outside := replaceClauses ['_'] (trim selector.toList)
  outside.any (fun c => c == '>' || c == '+' || c == '~') || 1 < (words outside).length

/-- Selectors describe one element. -/
def Check.combinators : Check := fun definition _ =>
  (definition.selectors.filter hasCombinator).map fun selector =>
    { check := "check_unsupported_combinators"
      severity := .warning
      message := "Selector " ++ inQuotes selector ++
        " uses a combinator; only compound selectors on a single element are supported."
      selector := some selector
      fix := some "Target the element directly, e.g. 'button.chat' or 'button[data-id=\"x\"]'." }

/-! ## Grammar -/

/-- Selectors should keep to the grammar. -/
def Check.grammar : Check := fun definition _ =>
  definition.selectors.filterMap fun selector =>
    match parseCompound selector with
    | .ok _ => none
    | .error column => some
      { check := "check_selector_syntax"
        severity := .warning
        message := "Selector " ++ inQuotes selector ++ " is not valid override syntax at column " ++
          toString column ++ "; it was parsed on a best-effort basis."
        selector := some selector
        fix := some "Use tag, .context, #id, [attr op \"value\"] and one :state." }

/-! ## Tags -/

/-- Whether a selector starts with a tag, blanks aside. -/
def startsWithTag (selector : String) : Bool := (trimStart selector.toList).head?.any isWord

/-- A selector without a tag aims at the default component. -/
def Check.tags : Check := fun definition config =>
  (definition.selectors.filter (!startsWithTag ·)).map fun selector =>
    { check := "check_component_tag"
      severity := .warning
      message := "Selector " ++ inQuotes selector ++ " has no component tag; it will target " ++
        inQuotes config.defaultComponent ++ "."
      selector := some selector
      fix := some ("Prefix the selector with a tag, e.g. " ++
        inQuotes (config.defaultComponent ++ String.ofList (trim selector.toList)) ++ ".") }

/-! ## Contexts -/

/-- Whether a tag may start behind a character: no word is continued there, and no shorthand. -/
def mayPrecedeTag : Option Char → Bool
  | some c => !isName c && c != '.' && c != '#'
  | none => true

/-- A tag with contexts behind it; found are the names of the contexts. -/
def taggedContexts : Recognizer (List (List Char)) := fun before s =>
  let (names, rest) := dottedSpan (s.dropWhile isWord)
  if mayPrecedeTag before && s.head?.any isWord && names.head? == some '.' then
    some (runs (· == '.') names, rest)
  else none

/-- The contexts that stay unexpanded in a selector. -/
def unexpandedContexts (known : List String) (selector : String) : List String :=
  (findAll taggedContexts (blankClauses (normalizeChars known selector.toList))).flatten.map
    String.ofList

/-- The shorthand of a context that is not known is never expanded. -/
def Check.contexts : Check := fun definition config =>
  definition.selectors.flatMap fun selector =>
    (unexpandedContexts config.knownContexts selector).map fun name =>
      { check := "check_unknown_context"
        severity := .warning
        message := inQuotes ("." ++ name) ++ " in selector " ++ inQuotes selector ++
          " is not a known context and will be ignored."
        selector := some selector
        fix := some ("Known contexts: " ++ ", ".intercalate config.sortedContexts ++ ".") }

/-! ## Duplicates -/

/-- The selectors that leave nothing to the element, each with the key of its target. -/
def keyedSelectors (config : Config) (selectors : List String) : List (String × String) :=
  selectors.filterMap fun selector =>
    let target := lenientTarget config.knownContexts config.defaultComponent selector
    if target.attributes.isEmpty then some (target.key, selector) else none

/-- Several selectors should not aim at the same target. -/
def Check.duplicates : Check := fun definition config =>
  (Mapping.group (keyedSelectors config definition.selectors)).entries.filterMap
    fun (key, selectors) =>
      if 1 < selectors.length then some
        { check := "check_duplicate_targets"
          severity := .warning
          message := "Multiple overrides target " ++ inQuotes key ++ ": " ++
            ", ".intercalate selectors ++ "."
          selector := selectors.getLast?
          fix := some "Consolidate them; the later declaration wins." }
      else none

/-! ## Small facts -/

example : unexpandedContexts ["chat"] "a.chat.x-1.y:hover" = [] := by decide +kernel

example : unexpandedContexts ["chat"] "a.x-1.y:hover" = ["x-1", "y"] := by decide +kernel

end StyleCascade

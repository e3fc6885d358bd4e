import StyleCascade.Check.Basic

/-!
# Checks of the form of a theme

Errors that keep a theme from being used.

* `Check.name` — the theme has a name, and the name is in kebab case (`isKebabName`).
* `Check.blankSelectors` — no selector is blank.
* `Check.propsForm` — the properties of every selector are a mapping.
-/

namespace StyleCascade

/-- Whether a character is a lower-case ASCII letter. -/
def isLowerLetter (c : Char) : Bool := 'a' ≤ c && c ≤ 'z'

/-- Whether a character may stand inside a kebab-case name. -/
def isKebab (c : Char) : Bool := isLowerLetter c || ('0' ≤ c && c ≤ '9') || c == '-'

/-- A text without one line feed at its end. -/
def dropLineEnd (s : List Char) : List Char := if s.getLast? == some '\n' then s.dropLast else s

/-- Whether a name is in kebab case: a lower-case letter, and lower-case letters, digits and
hyphens.  A line feed at the end is passed over. -/
def isKebabName (name : String) : Bool :=
  match name.toList with
  | [] => false
  | c :: cs => isLowerLetter c && (dropLineEnd cs).all isKebab

namespace Check

/-- A theme needs a name in kebab case. -/
def name : Check := fun definition _ =>
  let finding (message fix : String) : List Finding :=
    [{ check := "check_theme_name", severity := .error, message, fix := some fix }]
  if definition.name == "" then
    finding "Theme name is required." "Add a kebab-case \"name\" (e.g. \"nature\", \"cyberpunk\")."
  else if !isKebabName definition.name then
    finding ("Theme name " ++ inQuotes definition.name ++ " must be kebab-case.")
      "Use lowercase letters, digits and hyphens: \"my-theme-name\"."
  else []

/-- No selector may be blank. -/
def blankSelectors : Check := fun definition _ =>
  (definition.overrides.names.filter fun selector => Text.allBlank selector.toList).map
    fun selector =>
      { check := "check_empty_selector"
        severity := .error
        message := "Empty selector found in overrides."
        selector := some selector
        fix := some "Remove the entry or give it a selector such as 'button'." }

/-- The properties of every selector have to be a mapping. -/
def propsForm : Check := fun definition _ =>
  (definition.overrides.entries.filter fun (_, props) => props.asMapping?.isNone).map
    fun (selector, props) =>
      { check := "check_override_props"
        severity := .error
        message := "Invalid props for selector " ++ inQuotes selector ++
          ": expected a mapping, got " ++ props.kind ++ "."
        selector := some selector
        fix := some "Props must be an object such as \x7b\"variant\": \"solid\"\x7d." }

end Check

/-! ## Small facts -/

example : isKebabName "my-theme-2" = true ∧ isKebabName "2-themes" = false := by decide

end StyleCascade

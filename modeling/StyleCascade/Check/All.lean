import StyleCascade.Check.Properties
import StyleCascade.Check.Selectors
import StyleCascade.Check.Structure

/-!
# All checks

The checks of every theme, in order.

* `standardChecks` — the checks with their names.
* `Definition.findings` — what all checks find.
* `Definition.accept` — the findings, if none is an error, or else the errors.
* `rejection` — the errors in one message.
-/

namespace StyleCascade

/-- The checks of every theme with their names, in the order in which they are made. -/
def standardChecks : List (String × Check) := [
  ("check_theme_name", Check.name),
  ("check_empty_selector", Check.blankSelectors),
  ("check_override_props", Check.propsForm),
  ("check_unsupported_combinators", Check.combinators),
  ("check_selector_syntax", Check.grammar),
  ("check_component_tag", Check.tags),
  ("check_unknown_context", Check.contexts),
  ("check_duplicate_targets", Check.duplicates),
  ("check_ui_prop", Check.uiForm),
  ("check_prop_maps", Check.classTables)]

/-- What all checks find in a definition, those of `extra` last. -/
def Definition.findings (definition : Definition) (config : Config) (extra : List Check := []) :
    List Finding :=
  (standardChecks.map Prod.snd ++ extra).flatMap fun check => check definition config

/-- The findings in a definition, if none of them is an error; else the errors. -/
def Definition.accept (definition : Definition) (config : Config) (extra : List Check := []) :
    Except (List Finding) (List Finding) :=
  let findings := definition.findings config extra
  let errors := findings.filter Finding.isError
  if errors.isEmpty then .ok findings else .error errors

/-- The errors among findings in one message. -/
def rejection (findings : List Finding) : String :=
  let messages := (findings.filter Finding.isError).map Finding.text
  "Validation failed with " ++ toString messages.length ++ " error(s): " ++
    "; ".intercalate messages

end StyleCascade

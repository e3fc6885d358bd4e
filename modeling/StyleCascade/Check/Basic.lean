import StyleCascade.Config
import StyleCascade.Finding
import StyleCascade.Theme.Definition

/-!
# Checks

A check looks at a theme definition and reports what it finds.
-/

namespace StyleCascade

/-- What a check finds in a definition under a configuration. -/
abbrev Check := Definition → Config → List Finding

/-- The selectors of a definition that are not blank, in order. -/
def Definition.selectors (definition : Definition) : List String :=
  definition.overrides.names.filter fun selector => !Text.allBlank selector.toList

/-- A text between single quotes. -/
def inQuotes (s : String) : String := "'" ++ s ++ "'"

end StyleCascade

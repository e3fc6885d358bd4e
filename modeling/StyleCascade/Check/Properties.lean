import StyleCascade.Cascade.ClassTables
import StyleCascade.Check.Basic

/-!
# Checks of properties

Warnings about properties and class tables of the wrong form.

* `Check.uiForm` — `ui` is a mapping wherever it is given.
* `Check.classTables` — the class tables are mappings from values to class names.
-/

namespace StyleCascade

/-- `ui` should be a mapping, so that it can be merged. -/
def Check.uiForm : Check := fun definition _ =>
  (definition.overrides.entries.filter fun (_, props) =>
    ((props.asMapping?.bind (·.get? "ui")).any fun ui => ui.asMapping?.isNone)).map
    fun (selector, _) =>
      { check := "check_ui_prop"
        severity := .warning
        message := "'ui' for selector " ++ inQuotes selector ++
          " is not an object; it will replace rather than merge."
        selector := some selector }

/-- Whether a value is a table of class names. -/
def isClassTable (table : Value) : Bool :=
  match table.asMapping? with
  | some entries => entries.values.all fun v => v.asText?.isSome
  | none => false

/-- What is wrong with one entry of the class tables. -/
def tableFinding? (name : String) (table : Value) : Option Finding :=
  if !ClassTables.mappedNames.contains name then some
    { check := "check_prop_maps"
      severity := .warning
      message := "Unknown propMaps entry " ++ inQuotes name ++ "; only " ++
        ", ".intercalate ClassTables.mappedNames ++ " are projected." }
  else if !isClassTable table then some
    { check := "check_prop_maps"
      severity := .warning
      message := "Invalid propMaps for " ++ inQuotes name ++ "."
      fix := some "PropMaps must be objects mapping values to class strings." }
  else none

/-- The class tables should be mappings from values to class names. -/
def Check.classTables : Check := fun definition _ =>
  match definition.propMaps with
  | .null => []
  | tables =>
    match tables.asMapping? with
    | none =>
      [{ check := "check_prop_maps"
         severity := .warning
         message := "propMaps must be an object keyed by variant, size or color." }]
    | some tables => tables.entries.filterMap fun (name, table) => tableFinding? name table

end StyleCascade

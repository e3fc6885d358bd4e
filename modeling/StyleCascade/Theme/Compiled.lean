import StyleCascade.Cascade.ClassTables
import StyleCascade.Rule

/-!
# Compiled themes

A theme in the form in which queries are answered.
-/

namespace StyleCascade

/-- A theme with its rules compiled. -/
structure Theme where
  /-- Its name. -/
  name : String
  /-- Its rules. -/
  rules : List Rule := []
  /-- Its class tables. -/
  tables : ClassTables := standardTables
  /-- The name that people read. -/
  displayName : String := ""
  /-- What it is for. -/
  description : String := ""
  /-- Whether it is the theme to start with. -/
  isDefault : Bool := false

end StyleCascade

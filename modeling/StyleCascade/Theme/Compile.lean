import StyleCascade.Check.All
import StyleCascade.LogRecord
import StyleCascade.Theme.Compiled

/-!
# Compiling themes

A definition is checked and, where no error was found, turned into a theme.

* `Compilation` — the theme or the errors, and the warnings.
* `Definition.compile` — the compilation of a definition.
* `ruleLog`, `rulesLog`, `Definition.compileLog` — what is reported on the way.
-/

namespace StyleCascade

/-- What came of the compilation of a definition. -/
structure Compilation where
  /-- The name of the definition, or `unknown` where it has none. -/
  name : String
  /-- The theme, where there were no errors. -/
  theme : Option Theme
  /-- The errors. -/
  errors : List Finding := []
  /-- The other findings. -/
  warnings : List Finding := []

/-- Whether a compilation gave a theme. -/
def Compilation.success (c : Compilation) : Bool := c.theme.isSome && c.errors.isEmpty

namespace Definition

/-- The name of a definition for reports. -/
def reportName (definition : Definition) : String :=
  if definition.name == "" then "unknown" else definition.name

/-- The rules of a definition. -/
def rules (definition : Definition) (config : Config) : List Rule :=
  compileAll config.knownContexts config.defaultComponent definition.overrides.entries

/-- The errors in a definition. -/
def errors (definition : Definition) (config : Config) : List Finding :=
  (definition.findings config).filter Finding.isError

/-- The findings in a definition that are no errors. -/
def warnings (definition : Definition) (config : Config) : List Finding :=
  (definition.findings config).filter (!·.isError)

/-- The theme of a definition with the class tables that it gives. -/
def themeWith (definition : Definition) (config : Config) (tables : ClassTables) : Theme :=
  { name := definition.name
    rules := definition.rules config
    tables := standardTables.overlaidBy tables
    displayName := definition.displayName
    description := definition.description
    isDefault := definition.isDefault }

/-- The compilation of a definition.  Warnings never keep it from becoming a theme, but class
tables that are given and are no mapping are an error.  Properties are taken over as they are, to
any depth of nesting, and no copies are made of them, since values never change. -/
def compile (definition : Definition) (config : Config) : Except NotAMapping Compilation :=
  let name := definition.reportName
  let errors := definition.errors config
  let warnings := definition.warnings config
  if errors.isEmpty then
    (ClassTables.ofValue definition.propMaps).map fun tables =>
      { name, theme := some (definition.themeWith config tables), warnings }
  else .ok { name, theme := none, errors, warnings }

end Definition

/-! ## Reports -/

/-- What the compilation of one selector reports. -/
def ruleLog (selector : String) (props : Value) : List LogRecord :=
  if props.asMapping?.isSome then []
  else
    [⟨.warning, .compilation, "Ignoring non-mapping props for selector " ++ Text.quoted selector⟩]

/-- What the compilation of a list of selectors reports. -/
def rulesLog (entries : List (String × Value)) : List LogRecord :=
  (entries.flatMap fun (selector, props) => ruleLog selector props) ++
    [⟨.debug, .compilation, "Compiled " ++ toString entries.length ++ " override(s)"⟩]

/-- What the compilation of a definition reports. -/
def Definition.compileLog (definition : Definition) (config : Config) : List LogRecord :=
  let entries := definition.overrides.entries
  let errors := definition.errors config
  if errors.isEmpty then
    rulesLog entries ++
      match ClassTables.ofValue definition.propMaps with
      | .error _ => []
      | .ok _ =>
        [⟨.debug, .compilation, "Compiled theme " ++ definition.reportName ++ ": " ++
          toString entries.length ++ " override(s), " ++
          toString (definition.warnings config).length ++ " warning(s)"⟩]
  else
    [⟨.warning, .compilation, "Theme " ++ definition.reportName ++ " failed validation with " ++
      toString errors.length ++ " error(s)"⟩]

end StyleCascade

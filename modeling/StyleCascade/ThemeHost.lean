import StyleCascade.Resolver
import StyleCascade.Theme.Compile

/-!
# The active theme

A host answers queries against the theme that is active.  Activating a theme makes a resolver of
its own for it, so a resolver that was handed out before stays as it is; loading a definition
compiles it first, and a definition with errors leaves everything as it is.

* `ThemeHost` — all resolvers made so far, and which of them is active.
* `ThemeHost.activate`, `load`, `deactivate` — the change of the theme.
* `ThemeHost.resolve`, `resolveWith` — queries to the active resolver and to any of them.
-/

namespace StyleCascade

/-- The resolvers made so far and the active one of them. -/
structure ThemeHost where
  /-- What the host is told about the place it is used in. -/
  config : Config
  /-- All resolvers in the order in which they were made. -/
  resolvers : List Resolver := []
  /-- The number of the active resolver. -/
  active : Option Nat := none

/-- Why a definition was not loaded. -/
inductive LoadFailure where
  /-- It has errors. -/
  | invalid (errors : List Finding)
  /-- Its class tables are no mapping. -/
  | badTables (reason : NotAMapping)

/-- What a host gives for a definition that it is to load: the number of the new resolver, or why
there is none, and the host afterwards. -/
structure LoadAnswer where
  outcome : Except LoadFailure Nat
  host : ThemeHost

/-- What a host gives for a query: the properties, the host afterwards, and what it reports. -/
structure HostAnswer where
  props : Props
  host : ThemeHost
  log : List LogRecord := []

namespace ThemeHost

/-- The host without any theme. -/
def start (config : Config) : ThemeHost := { config }

/-- The active resolver. -/
def activeResolver (host : ThemeHost) : Option Resolver := host.active.bind (host.resolvers[·]?)

/-- The name of the active theme. -/
def themeName (host : ThemeHost) : Option String := host.activeResolver.map Resolver.themeName

/-! ## The change of the theme -/

/-- Make a theme the active one.  The number of its resolver is that of the resolvers before. -/
def activate (host : ThemeHost) (theme : Theme) : ThemeHost :=
  { host with
    resolvers := host.resolvers ++ [.ofTheme theme host.config]
    active := some host.resolvers.length }

/-- Compile a definition and make its theme the active one. -/
def load (host : ThemeHost) (definition : Definition) : LoadAnswer :=
  match definition.compile host.config with
  | .error reason => { outcome := .error (.badTables reason), host }
  | .ok result =>
    match result.theme with
    | some theme => { outcome := .ok host.resolvers.length, host := host.activate theme }
    | none => { outcome := .error (.invalid result.errors), host }

/-- Leave no theme active. -/
def deactivate (host : ThemeHost) : ThemeHost := { host with active := none }

/-! ## Queries -/

/-- The answer to a query from one of the resolvers; nothing if there is none of the number. -/
def resolveWith (host : ThemeHost) (number : Nat) (q : Query) : Option HostAnswer :=
  host.resolvers[number]?.map fun resolver =>
    let answer := resolver.resolve q
    { props := answer.props
      host := { host with resolvers := host.resolvers.set number answer.resolver }
      log := answer.log }

/-- The answer to a query from the active resolver; no properties where none is active. -/
def resolve (host : ThemeHost) (q : Query) : HostAnswer :=
  (host.active.bind (host.resolveWith · q)).getD { props := ∅, host }

/-! ## Reports -/

/-- What activating a theme reports. -/
def activateLog (host : ThemeHost) (theme : Theme) : LogRecord :=
  ⟨.info, .activation, "Activated theme " ++ theme.name ++ " (" ++ toString theme.rules.length ++
    " overrides, previous=" ++ host.themeName.getD "None" ++ ")"⟩

/-- What loading a definition reports. -/
def loadLog (host : ThemeHost) (definition : Definition) : List LogRecord :=
  definition.compileLog host.config ++
    match definition.compile host.config with
    | .error _ => []
    | .ok result =>
      (result.warnings.map fun warning =>
        ⟨.warning, .activation, "Theme " ++ result.name ++ ": " ++ warning.text⟩) ++
        (result.theme.map host.activateLog).toList

/-! ## Small facts -/

@[simp] theorem themeName_start (config : Config) : (start config).themeName = none := rfl

@[simp] theorem themeName_deactivate (host : ThemeHost) : host.deactivate.themeName = none := rfl

@[simp] theorem themeName_activate (host : ThemeHost) (theme : Theme) :
    (host.activate theme).themeName = some theme.name := by
  simp [themeName, activeResolver, activate, Resolver.ofTheme]

end ThemeHost

end StyleCascade

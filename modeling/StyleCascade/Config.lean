import StyleCascade.Selector.Target

/-!
# Configuration

What the library can be told about the place it is used in.
-/

namespace StyleCascade

/-- What the library can be told. -/
structure Config where
  /-- The contexts that shorthands may name. -/
  knownContexts : List String := standardContexts
  /-- The component that a selector without a tag aims at. -/
  defaultComponent : String := standardComponent
  /-- How many answers a resolver keeps. -/
  cacheSize : Int := 100
  /-- Whether answers tell which rules they come from. -/
  debug : Bool := false
  deriving Repr, Inhabited

/-- The configuration with further known contexts. -/
def Config.addContexts (config : Config) (contexts : List String) : Config :=
  { config with knownContexts := config.knownContexts ++ contexts }

/-- The known contexts in order, each once. -/
def Config.sortedContexts (config : Config) : List String :=
  config.knownContexts.eraseDups.mergeSort fun a b => decide (a ≤ b)

end StyleCascade

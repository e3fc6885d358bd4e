import StyleCascade.Selector.Attribute

/-!
# Targets

What a selector aims at: a component, possibly in a context, under an identifier or in a state,
with further attribute clauses that its element has to satisfy.
-/

namespace StyleCascade

/-- The contexts that are known where none are named. -/
def standardContexts : List String := ["chat", "sidebar", "dashboard", "header", "global"]

/-- The component that a selector without a tag aims at where none is named. -/
def standardComponent : String := "button"

/-- What a selector aims at. -/
structure Target where
  /-- The tag of the component. -/
  component : String
  /-- The context that its instances stand in. -/
  context : Option String := none
  /-- The identifier of the instance. -/
  identifier : Option String := none
  /-- The state that the instance is in. -/
  state : Option String := none
  /-- The clauses that the element has to satisfy, all of them. -/
  attributes : List AttributeClause := []
  deriving Repr, DecidableEq, Inhabited

/-- The parts of a target but its attribute clauses, joined by colons; a missing part is left
empty. -/
def Target.key (target : Target) : String :=
  target.component ++ ":" ++ target.context.getD "" ++ ":" ++ target.identifier.getD "" ++ ":" ++
    target.state.getD ""

end StyleCascade

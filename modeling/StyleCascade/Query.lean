import StyleCascade.Element

/-!
# Queries

One instance of a component asking for its properties.
-/

namespace StyleCascade

/-- One instance of a component. -/
structure Query where
  /-- The tag of the component. -/
  component : String
  /-- The context it stands in. -/
  context : Option String := none
  /-- Its identifier. -/
  identifier : Option String := none
  /-- The state it is in. -/
  state : Option String := none
  /-- The element that shows it, if there is one. -/
  element : Option Element := none
  /-- Whether it understands `variant`, `size`, `color` and `ui` itself. -/
  managed : Bool := false

/-- The element of the query, if it has one, answers whatever it is asked for. -/
def Query.NeverFails (q : Query) : Prop := ∀ e ∈ q.element, e.NeverFails

end StyleCascade

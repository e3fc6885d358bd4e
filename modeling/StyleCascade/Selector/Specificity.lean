import StyleCascade.Selector.Lenient

/-!
# Specificity

How much a selector asks for: one for the component, and ten for every bracketed clause and for
every state.  Shorthands weigh nothing here, so the weight of a selector is that of its text
with the shorthands expanded; colons inside clauses are no states.
-/

namespace StyleCascade.Selector

open StyleCascade.Text

/-- The weight of the component. -/
def componentWeight : Nat := 1

/-- The weight of a bracketed clause. -/
def clauseWeight : Nat := 10

/-- The weight of a state. -/
def stateWeight : Nat := 10

/-- The weight of a selector without shorthands. -/
def specificityOfChars (s : List Char) : Nat :=
  componentWeight + clauseWeight * (clauses s).length +
    stateWeight * (findAll stateName (blankClauses s)).length

/-- The weight of a selector without shorthands. -/
def specificity (selector : String) : Nat := specificityOfChars selector.toList

example : specificity "button[data-context=\"chat\"]:hover" = 21 := by decide +kernel

end StyleCascade.Selector

import StyleCascade.Selector.Attribute
import StyleCascade.Value.Mapping

/-!
# Elements

The element that a component instance is shown by, as far as selectors see it: it can be asked
for its attributes, and asking can fail.

* `Element` — an element by what it answers.
* `Element.satisfies` — whether it satisfies clauses; they are asked in order, and asking stops
  at the first that it does not satisfy or that fails.
* `Element.asked` — the attributes that are asked for on the way.
-/

namespace StyleCascade

/-- An element by what it answers when it is asked for an attribute: the value, nothing where
the attribute is absent, or the reason why it cannot answer. -/
structure Element where
  /-- The answer for an attribute. -/
  ask : String → Except String (Option String)

namespace Element

/-- The element with the given attributes, which always answers. -/
def ofAttributes (attributes : Mapping String) : Element :=
  ⟨fun name => .ok (attributes.get? name)⟩

/-- Whether an element satisfies all of a list of clauses. -/
def satisfies (e : Element) : List AttributeClause → Except String Bool
  | [] => .ok true
  | clause :: rest =>
    match e.ask clause.name with
    | .error reason => .error reason
    | .ok value => if clause.accepts value then e.satisfies rest else .ok false

/-- The attributes that an element is asked for when clauses are put to it. -/
def asked (e : Element) : List AttributeClause → List String
  | [] => []
  | clause :: rest =>
    clause.name ::
      match e.ask clause.name with
      | .error _ => []
      | .ok value => if clause.accepts value then e.asked rest else []

/-- Whether an element answers whatever it is asked for. -/
def NeverFails (e : Element) : Prop := ∀ name, ∃ value, e.ask name = .ok value

theorem neverFails_ofAttributes (attributes : Mapping String) :
    (ofAttributes attributes).NeverFails := fun _ => ⟨_, rfl⟩

/-- Attributes are asked for in the order of the clauses. -/
theorem asked_isPrefix (e : Element) (clauses : List AttributeClause) :
    e.asked clauses <+: clauses.map AttributeClause.name := by
  induction clauses with
  | nil => simp [asked]
  | cons clause rest ih =>
    simp only [asked, List.map_cons, List.cons_prefix_cons, true_and]
    split
    · exact List.nil_prefix
    · split
      · exact ih
      · exact List.nil_prefix

end Element

end StyleCascade

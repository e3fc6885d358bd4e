import StyleCascade.Query
import StyleCascade.Selector.Specificity
import StyleCascade.Value.Basic

/-!
# Rules

A selector with its properties, in the form in which it is matched against queries.

* `Rule` — the type; `Rule.compile` makes one from a selector and its properties.
* `bySpecificity` — rules in the order of falling specificity.
* `compileAll` — the rules of a list of selectors with their properties, in that order.
* `Rule.appliesTo` — whether a rule applies to a query.
* `matching` — the rules of a list that apply.
-/

namespace StyleCascade

/-- A selector with its properties. -/
structure Rule where
  /-- The selector as it was written. -/
  selector : String
  /-- What it aims at. -/
  target : Target
  /-- The properties it gives. -/
  props : Props := ∅
  /-- Its weight. -/
  specificity : Int := 1

/-! ## Compilation -/

/-- The rule of a selector and its properties, where `known` are the contexts that shorthands may
name and a selector without a tag aims at `fallback`.  Properties that are no mapping are left
out. -/
def Rule.compile (known : List String) (fallback selector : String) (props : Value) : Rule :=
  let normalized := Selector.normalize known selector
  { selector
    target := Selector.targetOf fallback normalized
    props := props.asMapping?.getD ∅
    specificity := Selector.specificity normalized }

/-- Rules in the order of falling specificity; those of the same specificity keep their order. -/
def bySpecificity (rules : List Rule) : List Rule :=
  rules.mergeSort fun a b => decide (b.specificity ≤ a.specificity)

/-- The rules of selectors with their properties, in the order of falling specificity. -/
def compileAll (known : List String) (fallback : String) (entries : List (String × Value)) :
    List Rule :=
  bySpecificity (entries.map fun (selector, props) => Rule.compile known fallback selector props)

/-! ## Matching -/

/-- Whether a part of a target, where it is given and not empty, is the one of the query. -/
def partAgrees (part actual : Option String) : Bool :=
  match part with
  | none => true
  | some name => name == "" || actual == some name

/-- Whether a rule applies to a query.  The component has to be the same, and so have the
context, the identifier and the state where the rule gives them; its clauses are put to the
element, and without an element none is satisfied. -/
def Rule.appliesTo (rule : Rule) (q : Query) : Except String Bool :=
  if rule.target.component == q.component && partAgrees rule.target.context q.context &&
      partAgrees rule.target.identifier q.identifier && partAgrees rule.target.state q.state then
    match rule.target.attributes, q.element with
    | [], _ => .ok true
    | _ :: _, none => .ok false
    | clauses, some e => e.satisfies clauses
  else .ok false

/-- The rules that apply to a query, in their order; the reason, if an element fails to answer
on the way. -/
def matching (q : Query) : List Rule → Except String (List Rule)
  | [] => .ok []
  | rule :: rest => do
    let applies ← rule.appliesTo q
    let rest ← matching q rest
    return if applies then rule :: rest else rest

/-! ## Small facts -/

@[simp] theorem compileAll_nil (known : List String) (fallback : String) :
    compileAll known fallback [] = [] := by simp [compileAll, bySpecificity]

theorem bySpecificity_perm (rules : List Rule) : (bySpecificity rules).Perm rules :=
  List.mergeSort_perm rules _

end StyleCascade

import StyleCascade.Rule
import StyleCascade.Value.Display

/-!
# The cascade

The properties that several rules give together.  Rules are laid over each other in the order of
rising specificity, so that the more specific one wins; how two values of one property combine
depends on its name.

* `MergeMode` — replace, join class names, or merge entries; `MergeMode.ofName`.
* `combine` — the value of a property after one rule more.
* `cascade` — the properties of a list of rules.
-/

namespace StyleCascade

/-- How the value that a rule gives combines with the value so far. -/
inductive MergeMode where
  /-- It replaces the value. -/
  | replace
  /-- Its class names come before those so far. -/
  | joinClasses
  /-- Its entries are laid over those so far. -/
  | mergeEntries
  deriving Repr, DecidableEq

/-- How the values of a property combine: class names are joined and the entries of `ui` merged;
any other value is replaced. -/
def MergeMode.ofName (name : String) : MergeMode :=
  if name = "class" then .joinClasses
  else if name = "ui" then .mergeEntries
  else .replace

/-! ## Two values of one property -/

/-- The class names of several values: their texts with a space between them.  Values that do
not count as given are left out. -/
def classText (parts : List Value) : String :=
  " ".intercalate ((parts.filter Value.truthy).map Value.display)

/-- The part of the class names so far that is kept: texts only. -/
def classesSoFar : Option Value → Value
  | some (.text s) => .text s
  | _ => .text ""

/-- The entries of a mapping laid over the value so far, where that is a mapping too; a value
that is no mapping replaces it. -/
def mergeEntries (current : Option Value) (incoming : Value) : Value :=
  match incoming.asMapping? with
  | some entries => .ofMapping (((current.bind Value.asMapping?).getD ∅).update entries)
  | none => incoming

/-- The value of a property after a rule gives `incoming`, where it was `current` before. -/
def combine (mode : MergeMode) (current : Option Value) (incoming : Value) : Value :=
  match mode with
  | .replace => incoming
  | .joinClasses => .text (classText [incoming, classesSoFar current])
  | .mergeEntries => mergeEntries current incoming

/-! ## Rules over each other -/

/-- The properties after one property more. -/
def addProp (props : Props) (entry : String × Value) : Props :=
  props.insert entry.1 (combine (.ofName entry.1) (props.get? entry.1) entry.2)

/-- The properties after one rule more. -/
def addRule (props : Props) (rule : Rule) : Props := rule.props.entries.foldl addProp props

/-- Rules in the order of rising specificity; those of the same specificity keep their order. -/
def byRisingSpecificity (rules : List Rule) : List Rule :=
  rules.mergeSort fun a b => decide (a.specificity ≤ b.specificity)

/-- The properties that rules give together. -/
def cascade (rules : List Rule) : Props := (byRisingSpecificity rules).foldl addRule ∅

/-! ## Small facts -/

theorem get?_addProp (props : Props) (entry : String × Value) (name : String) :
    (addProp props entry).get? name =
      if name = entry.1 then some (combine (.ofName entry.1) (props.get? entry.1) entry.2)
      else props.get? name := by
  simp [addProp]

@[simp] theorem cascade_nil : cascade [] = ∅ := by
  simp [cascade, byRisingSpecificity]

end StyleCascade

import StyleCascade.Number.Double
import StyleCascade.Value.Mapping

/-!
# Values

The values that themes are written in: those of a data file, with whole numbers of any size and
floating point numbers kept apart.

* `Value` — the type.
* `Value.truthy` — whether a value counts as given; empty and zero values do not.
* `Value.kind` — the name of a value's kind.
* `Props` — the properties of a component.
-/

namespace StyleCascade

/-- A value of a data file. -/
inductive Value where
  /-- No value. -/
  | null
  /-- A truth value. -/
  | bool (b : Bool)
  /-- A whole number. -/
  | int (n : Int)
  /-- A floating point number. -/
  | float (x : Double)
  /-- A text. -/
  | text (s : String)
  /-- A sequence of values. -/
  | list (items : List Value)
  /-- Names with values, in order.  Of entries with one name the last one counts. -/
  | mapping (entries : List (String × Value))
  deriving Repr, Inhabited

/-- The properties of a component. -/
abbrev Props := Mapping Value

namespace Value

/-- Whether a value counts as given: it is not null, false, zero or empty. -/
def truthy : Value → Bool
  | null => false
  | bool b => b
  | int n => n != 0
  | float x => !x.isZero
  | text s => s != ""
  | list items => !items.isEmpty
  | mapping entries => !entries.isEmpty

/-- The name of a value's kind, as messages call it. -/
def kind : Value → String
  | null => "NoneType"
  | bool _ => "bool"
  | int _ => "int"
  | float _ => "float"
  | text _ => "str"
  | list _ => "list"
  | mapping _ => "dict"

/-- The mapping that a value is, if it is one. -/
def asMapping? : Value → Option (Mapping Value)
  | mapping entries => some (Mapping.ofList entries)
  | _ => none

/-- The text that a value is, if it is one. -/
def asText? : Value → Option String
  | text s => some s
  | _ => none

/-- The value that holds a mapping. -/
def ofMapping (m : Mapping Value) : Value := mapping m.entries

end Value

end StyleCascade

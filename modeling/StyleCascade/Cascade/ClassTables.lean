import StyleCascade.Value.Display

/-!
# Class tables

Which class names stand for the values of `variant`, `size` and `color`.

* `ClassTables` — one table for each of the three; `lookup` finds a class.
* `ClassTables.overlaidBy` — tables of a theme over the standard ones.
* `ClassTables.ofValue` — the tables that a theme gives.
* `standardTables` — the tables of a theme that gives none.
-/

namespace StyleCascade

/-- For each of `variant`, `size` and `color`, the class names that its values stand for. -/
structure ClassTables where
  variant : Mapping String := ∅
  size : Mapping String := ∅
  color : Mapping String := ∅
  deriving Inhabited

/-- What was given for class tables is no mapping. -/
structure NotAMapping where
  /-- The kind of what was given. -/
  kind : String
  deriving Repr, DecidableEq

/-- The wording of the error: such a value cannot be asked for a table. -/
def NotAMapping.message (e : NotAMapping) : String :=
  "'" ++ e.kind ++ "' object has no attribute 'get'"

namespace ClassTables

/-- The properties that have a table, in the order in which their classes are written. -/
def mappedNames : List String := ["variant", "size", "color"]

/-- The table of a property. -/
def table? (tables : ClassTables) (name : String) : Option (Mapping String) :=
  if name = "variant" then some tables.variant
  else if name = "size" then some tables.size
  else if name = "color" then some tables.color
  else none

/-- The class that a value of a property stands for, if there is one; an empty class is none. -/
def lookup (tables : ClassTables) (name : String) (value : Value) : Option String := do
  let table ← tables.table? name
  let text ← value.asText?
  (table.get? text).filter (· != "")

/-- Tables with those of `above` in the place of theirs, where they are not empty. -/
def overlaidBy (tables above : ClassTables) : ClassTables :=
  let pick (mine theirs : Mapping String) := if theirs.isEmpty then mine else theirs
  { variant := pick tables.variant above.variant
    size := pick tables.size above.size
    color := pick tables.color above.color }

/-- The table that a value gives; a value that is no mapping gives none. -/
def tableOfValue (value : Option Value) : Mapping String :=
  match value.bind Value.asMapping? with
  | some entries => Mapping.ofList (entries.entries.map fun (name, v) => (name, v.display))
  | none => ∅

/-- The tables that a value gives.  A value that is not given has no tables, and one that is no
mapping is an error. -/
def ofValue (value : Value) : Except NotAMapping ClassTables :=
  if value.truthy then
    match value.asMapping? with
    | some data =>
      .ok { variant := tableOfValue (data.get? "variant")
            size := tableOfValue (data.get? "size")
            color := tableOfValue (data.get? "color") }
    | none => .error ⟨value.kind⟩
  else .ok {}

end ClassTables

/-- The tables of a theme that gives none. -/
def standardTables : ClassTables where
  variant := .ofList [
    ("solid", "variant-solid"), ("outline", "variant-outline"), ("ghost", "variant-ghost"),
    ("soft", "variant-soft"), ("link", "variant-link")]
  size := .ofList [
    ("xs", "text-xs px-2 py-1"), ("sm", "text-sm px-3 py-1.5"), ("md", "text-base px-4 py-2"),
    ("lg", "text-lg px-5 py-2.5"), ("xl", "text-xl px-6 py-3")]
  color := .ofList [
    ("primary", "text-primary-600 bg-primary-50 border-primary-300"),
    ("secondary", "text-secondary-600 bg-secondary-50 border-secondary-300"),
    ("success", "text-green-600 bg-green-50 border-green-300"),
    ("error", "text-red-600 bg-red-50 border-red-300"),
    ("warning", "text-yellow-600 bg-yellow-50 border-yellow-300"),
    ("info", "text-blue-600 bg-blue-50 border-blue-300")]

end StyleCascade

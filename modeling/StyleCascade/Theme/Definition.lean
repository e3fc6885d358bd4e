import StyleCascade.Value.Display

/-!
# Theme definitions

A theme as it is written: a name, properties for selectors, and tables of class names.
-/

namespace StyleCascade

/-- A theme as it is written. -/
structure Definition where
  /-- Its name; empty where it has none. -/
  name : String
  /-- The properties of each selector.  They should be mappings, but need not be. -/
  overrides : Mapping Value := ∅
  /-- The tables of class names.  They should be a mapping, but need not be. -/
  propMaps : Value := .null
  /-- The name that people read. -/
  displayName : String := ""
  /-- What it is for. -/
  description : String := ""
  /-- Whether it is the theme to start with. -/
  isDefault : Bool := false
  deriving Inhabited

namespace Definition

/-- The value of a member that may have either of two names. -/
def either (data : Mapping Value) (name other : String) : Option Value :=
  (data.get? name).or (data.get? other)

/-- The text of a member; empty where there is none. -/
def textOf (value : Option Value) : String := (value.map Value.display).getD ""

/-- The definition that decoded data gives.  Members that are missing are left empty, and
overrides that are no mapping are none. -/
def ofMapping (data : Mapping Value) : Definition :=
  { name := textOf (data.get? "name")
    overrides := ((data.get? "overrides").bind Value.asMapping?).getD ∅
    propMaps := (either data "propMaps" "prop_maps").getD .null
    displayName := textOf (either data "displayName" "display_name")
    description := textOf (data.get? "description")
    isDefault := ((either data "isDefault" "is_default").map Value.truthy).getD false }

end Definition

end StyleCascade

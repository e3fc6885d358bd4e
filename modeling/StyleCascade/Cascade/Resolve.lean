import StyleCascade.Cascade.ClassTables
import StyleCascade.Cascade.Merge

/-!
# Resolving a query

The properties of one component instance: those of the rules that apply, merged, and for an
instance that does not understand the theme's own properties turned into class names.

* `plainProps` — class names in the place of `variant`, `size` and `color`.
* `finish` — the answer to a query from the rules that apply.
* `resolve` — the answer to a query.
-/

namespace StyleCascade

/-- Take a property out of the properties, if its value stands for a class, and put the class
behind the ones found so far. -/
def takeClass (tables : ClassTables) (state : Props × List String) (name : String) :
    Props × List String :=
  match (state.1.get? name).bind (tables.lookup name) with
  | some found => (state.1.erase name, state.2 ++ [found])
  | none => state

/-- Properties for an instance that does not understand the theme's own ones.  `ui` is dropped;
`variant`, `size` and `color` give way to the classes that they stand for, which come before the
others.  A value that stands for no class stays. -/
def plainProps (tables : ClassTables) (props : Props) : Props :=
  let (props, classes) :=
    ClassTables.mappedNames.foldl (takeClass tables) (props.erase "ui", [])
  if classes.isEmpty then props
  else
    props.insert "class"
      (.text (classText (classes.map .text ++ [(props.get? "class").getD .null])))

/-- The answer to a query from the rules that apply to it. -/
def finish (tables : ClassTables) (q : Query) (rules : List Rule) : Props :=
  let props := cascade rules
  if q.managed then props else plainProps tables props

/-- The answer to a query; the reason, if its element fails to answer on the way. -/
def resolve (tables : ClassTables) (rules : List Rule) (q : Query) : Except String Props :=
  (matching q rules).map (finish tables q)

end StyleCascade

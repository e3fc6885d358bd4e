import StyleCascade.Text.Blank

/-!
# Attribute clauses

One bracketed clause of a selector, such as `[disabled]` or `[type="submit"]`, and what it asks
of the value that an element has for the attribute.

* `ClauseOperator` — how the value is compared; `token` writes and `ofToken?` reads it.
* `AttributeClause` — the clause; `text` writes it.
* `AttributeClause.accepts` — whether a value satisfies it.
-/

namespace StyleCascade

/-- How a clause compares the value of an attribute with the value it expects. -/
inductive ClauseOperator where
  /-- The attribute is there, whatever its value. -/
  | present
  /-- The value is the expected one. -/
  | equals
  /-- One of the words of the value is the expected one. -/
  | hasWord
  /-- The value is the expected one or continues it after a hyphen. -/
  | dashMatch
  /-- The value begins with the expected one. -/
  | startsWith
  /-- The value ends with the expected one. -/
  | endsWith
  /-- The value contains the expected one. -/
  | contains
  deriving Repr, DecidableEq, Inhabited

/-- Whether a text stands somewhere in another one. -/
def occursIn (part : List Char) : List Char → Bool
  | [] => part.isEmpty
  | c :: cs => part.isPrefixOf (c :: cs) || occursIn part cs

namespace ClauseOperator

/-- The name of an operator: the sign that selectors use, and `exists` for the clause without
one. -/
def token : ClauseOperator → String
  | present => "exists"
  | equals => "="
  | hasWord => "~="
  | dashMatch => "|="
  | startsWith => "^="
  | endsWith => "$="
  | contains => "*="

/-- Every operator. -/
def all : List ClauseOperator :=
  [present, equals, hasWord, dashMatch, startsWith, endsWith, contains]

/-- The operator of a given name. -/
def ofToken? (name : String) : Option ClauseOperator := all.find? (·.token == name)

@[simp] theorem ofToken?_token (op : ClauseOperator) : ofToken? op.token = some op := by
  cases op <;> decide

/-- Whether a value that is there stands in the relation of the operator to an expected value
that is not empty. -/
def holds (op : ClauseOperator) (actual expected : List Char) : Bool :=
  match op with
  | present => true
  | equals => actual == expected
  | hasWord => (Text.words actual).contains expected
  | dashMatch => actual == expected || (expected ++ ['-']).isPrefixOf actual
  | startsWith => expected.isPrefixOf actual
  | endsWith => expected.isSuffixOf actual
  | contains => occursIn expected actual

end ClauseOperator

/-- One bracketed clause of a selector.  Selectors write no value for `present` and one for
every other operator. -/
structure AttributeClause where
  /-- The name of the attribute. -/
  name : String
  /-- How its value is compared. -/
  operator : ClauseOperator := .present
  /-- The value it is compared with. -/
  value : Option String := none
  deriving Repr, DecidableEq, Inhabited

namespace AttributeClause

/-- The clause as selectors write it; a missing value is written as the empty one. -/
def text (clause : AttributeClause) : String :=
  match clause.operator with
  | .present => "[" ++ clause.name ++ "]"
  | op => "[" ++ clause.name ++ op.token ++ "\"" ++ clause.value.getD "" ++ "\"]"

/-- Whether the value of the attribute, `none` where it is absent, satisfies the clause.  But
for `present`, a clause without a value or with an empty one is never satisfied. -/
def accepts (clause : AttributeClause) (actual : Option String) : Bool :=
  match clause.operator with
  | .present => actual.isSome
  | op =>
    match actual, clause.value with
    | some actual, some expected => expected != "" && op.holds actual.toList expected.toList
    | _, _ => false

@[simp] theorem accepts_present (name : String) (value actual : Option String) :
    (AttributeClause.mk name .present value).accepts actual = actual.isSome := rfl

end AttributeClause

end StyleCascade

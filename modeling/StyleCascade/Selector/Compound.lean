import StyleCascade.Text.Word
import StyleCascade.Selector.Shorthand

/-!
# Compound selectors

The grammar of selectors: a tag, shorthands, bracketed clauses and at most one state, in this
order and without blanks between them.

* `Shorthand`, `Compound` — a selector in its parts; `Compound.text` writes it, and
  `Compound.tokens` are the tokens that it is made of.
* `Compound.IsValid` — the parts are words of the grammar, and no context stands directly
  behind an identifier, whose dotted name it would continue.
* `Compound.target` — what the selector aims at, given the contexts that are known.
-/

namespace StyleCascade

open StyleCascade.Text StyleCascade.Selector

/-- An abbreviated clause. -/
inductive Shorthand where
  /-- A context, written as a dot and its name. -/
  | context (name : String)
  /-- An identifier, written as `#` and its name, which may have dots inside. -/
  | identifier (name : String)
  deriving Repr, DecidableEq

/-- A selector in its parts. -/
structure Compound where
  /-- The tag of the component. -/
  tag : String
  /-- The shorthands in order. -/
  shorthands : List Shorthand := []
  /-- The bracketed clauses in order. -/
  clauses : List AttributeClause := []
  /-- The state. -/
  state : Option String := none
  deriving Repr, DecidableEq

/-! ## Text -/

/-- A shorthand as selectors write it. -/
def Shorthand.text : Shorthand → String
  | context name => "." ++ name
  | identifier name => "#" ++ name

/-- A selector as it is written. -/
def Compound.text (c : Compound) : String :=
  c.tag ++ String.join (c.shorthands.map Shorthand.text) ++
    String.join (c.clauses.map AttributeClause.text) ++ (c.state.map (":" ++ ·)).getD ""

/-- The tokens of a clause. -/
def AttributeClause.tokens (clause : AttributeClause) : List String :=
  match clause.operator with
  | .present => ["[", clause.name, "]"]
  | op => ["[", clause.name, op.token, "\"" ++ clause.value.getD "" ++ "\"", "]"]

/-- The tokens of a selector, in order. -/
def Compound.tokens (c : Compound) : List String :=
  c.tag :: c.shorthands.map Shorthand.text ++ c.clauses.flatMap AttributeClause.tokens ++
    match c.state with
    | some name => [":", name]
    | none => []

/-! ## Validity -/

/-- A tag: an ASCII letter or an underscore, and word characters. -/
def IsTag (s : String) : Prop :=
  ∃ c cs, s.toList = c :: cs ∧ isNameStart c = true ∧ ∀ d ∈ cs, isWord d = true

/-- A word: name characters, at least one. -/
def IsNameWord (s : String) : Prop := s.toList ≠ [] ∧ ∀ c ∈ s.toList, isName c = true

/-- The name of an attribute: an ASCII letter or an underscore, and name characters. -/
def IsAttributeName (s : String) : Prop :=
  ∃ c cs, s.toList = c :: cs ∧ isNameStart c = true ∧ ∀ d ∈ cs, isName d = true

/-- The shorthand holds words of the grammar. -/
def Shorthand.IsValid : Shorthand → Prop
  | context name => IsNameWord name
  | identifier name => ∃ words : List String, words ≠ [] ∧ (∀ w ∈ words, IsNameWord w) ∧
      name = ".".intercalate words

/-- The clause holds the name of an attribute and, but for `present`, a value without double
quotes. -/
def AttributeClause.IsValid (clause : AttributeClause) : Prop :=
  IsAttributeName clause.name ∧
    match clause.operator with
    | .present => clause.value = none
    | _ => ∃ value, clause.value = some value ∧ '"' ∉ value.toList

/-- Two shorthands may follow each other unless the second is a context and the first an
identifier. -/
def Shorthand.MayPrecede : Shorthand → Shorthand → Prop
  | identifier _, context _ => False
  | _, _ => True

/-- The shorthands may follow each other in the order given. -/
def Separated : List Shorthand → Prop
  | a :: b :: rest => a.MayPrecede b ∧ Separated (b :: rest)
  | _ => True

/-- The parts of a selector are words of the grammar. -/
structure Compound.IsValid (c : Compound) : Prop where
  tag : IsTag c.tag
  shorthands : ∀ s ∈ c.shorthands, s.IsValid
  separated : Separated c.shorthands
  clauses : ∀ clause ∈ c.clauses, clause.IsValid
  state : ∀ name ∈ c.state, IsNameWord name

/-! ## Meaning -/

/-- The value of a clause that compares a given attribute with a value that is not empty. -/
def AttributeClause.valueOf? (name : String) (clause : AttributeClause) : Option String :=
  if clause.name == name && clause.operator == .equals then clause.value.filter (· != "")
  else none

/-- The context that a shorthand names, if it is a known one. -/
def Shorthand.context? (known : List String) : Shorthand → Option String
  | context name => if known.contains name then some name else none
  | identifier _ => none

/-- The identifier that a shorthand names. -/
def Shorthand.identifier? : Shorthand → Option String
  | context _ => none
  | identifier name => some name

/-- Whether a clause names the context or the identifier. -/
def AttributeClause.isConsumed (clause : AttributeClause) : Bool :=
  (clause.valueOf? contextAttribute).isSome || (clause.valueOf? identifierAttribute).isSome

/-- What a selector aims at.  Its context is the first that a shorthand of a known context or a
clause names, its identifier likewise, and all other clauses are left to the element.  The
shorthand of an unknown context says nothing. -/
def Compound.target (known : List String) (c : Compound) : Target :=
  { component := c.tag
    context := (c.shorthands.findSome? (Shorthand.context? known)).or
      (c.clauses.findSome? (AttributeClause.valueOf? contextAttribute))
    identifier := (c.shorthands.findSome? Shorthand.identifier?).or
      (c.clauses.findSome? (AttributeClause.valueOf? identifierAttribute))
    state := c.state
    attributes := c.clauses.filter (! ·.isConsumed) }

/-! ## Small facts -/

example : (Compound.mk "a" [.context "chat", .identifier "b.c"] [⟨"d", .equals, some "e"⟩]
    (some "hover")).text = "a.chat#b.c[d=\"e\"]:hover" := by decide +kernel

end StyleCascade

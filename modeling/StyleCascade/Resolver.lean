import StyleCascade.Cascade.Resolve
import StyleCascade.Config
import StyleCascade.LogRecord
import StyleCascade.RecencyCache
import StyleCascade.RuleIndex
import StyleCascade.Theme.Compiled

/-!
# Resolvers

A resolver answers queries against one theme and keeps the answers that cannot depend on an
element: those of queries without one, and those about components of which no rule has attribute
clauses.  A query whose element fails to answer gets no properties, and nothing is kept.

* `Resolver` — the rules of a theme in order and by component, with the answers kept;
  `Resolver.ofTheme`.
* `AnswerKey` — what two queries have to share to share an answer.
* `withSources` — the rules that an answer comes from, told in the answer.
* `Resolver.resolve` — one query answered.
-/

namespace StyleCascade

/-- What two queries have to share to share an answer.  A part that is missing counts as an empty
one. -/
structure AnswerKey where
  component : String
  context : String
  identifier : String
  state : String
  managed : Bool
  deriving Repr, DecidableEq

/-- The key of a query. -/
def Query.key (q : Query) : AnswerKey :=
  { component := q.component
    context := q.context.getD ""
    identifier := q.identifier.getD ""
    state := q.state.getD ""
    managed := q.managed }

/-- A theme in use: its rules in order and by component, and the answers kept. -/
structure Resolver where
  /-- The name of the theme. -/
  themeName : String
  /-- Its class tables. -/
  tables : ClassTables
  /-- Its rules, in the order of falling specificity. -/
  rules : List Rule
  /-- Its rules by the component that they aim at. -/
  index : Mapping (List Rule)
  /-- The components of which some rule has attribute clauses. -/
  attributeComponents : List String
  /-- Whether answers tell which rules they come from. -/
  debug : Bool
  /-- The answers kept. -/
  cache : RecencyCache AnswerKey Props
  /-- No rule is missing in the index, and none stands in another order or under another
  component. -/
  getD_get?_index : ∀ component,
    (index.get? component).getD [] = rules.filter (·.target.component == component)
  /-- No component with attribute clauses is missing. -/
  mem_attributeComponents : ∀ component, component ∈ attributeComponents ↔
    ∃ rule ∈ rules, rule.target.component = component ∧ rule.target.attributes ≠ []

/-- What a resolver gives for a query: the properties, the resolver afterwards, and what it
reports. -/
structure Answer where
  props : Props
  resolver : Resolver
  log : List LogRecord := []

/-- The selectors that stand for the rules of an answer where no rule applies. -/
def fallbackSelectors (q : Query) : List String :=
  let part (mark : String) (value : Option String) : List String :=
    match value with
    | some name => if name == "" then [] else [q.component ++ mark ++ name]
    | none => []
  part "#" q.identifier ++ part "." q.context ++ [q.component]

/-- The selectors that an answer comes from. -/
def sourceSelectors (q : Query) (rules : List Rule) : List String :=
  if rules.isEmpty then fallbackSelectors q else rules.map Rule.selector

/-- The property that names the first selector of an answer. -/
def targetProp : String := "data-theme-target"

/-- The property that names all selectors of an answer. -/
def matchesProp : String := "data-theme-matches"

/-- Properties that tell which selectors they come from, where they do not do so already. -/
def withSources (q : Query) (rules : List Rule) (props : Props) : Props :=
  let selectors := sourceSelectors q rules
  (props.insertIfNew targetProp (.text (selectors.headD ""))).insertIfNew matchesProp
    (.text (",".intercalate selectors))

namespace Resolver

/-- A theme put to use. -/
def ofTheme (theme : Theme) (config : Config) : Resolver :=
  let rules := bySpecificity theme.rules
  { themeName := theme.name
    tables := theme.tables
    rules
    index := rulesByComponent rules
    attributeComponents := componentsWithClauses rules
    debug := config.debug
    cache := .empty config.cacheSize
    getD_get?_index := getD_get?_rulesByComponent rules
    mem_attributeComponents := fun _ => mem_componentsWithClauses }

/-- Whether the answer to a query may be kept: it has no element, or no rule of its component has
attribute clauses to put to one. -/
def mayKeep (r : Resolver) (q : Query) : Bool :=
  q.element.isNone || !r.attributeComponents.contains q.component

/-- The rules that may apply to a query: those of its component. -/
def candidates (r : Resolver) (q : Query) : List Rule := (r.index.get? q.component).getD []

/-- The answer to a query from the rules alone. -/
def compute (r : Resolver) (q : Query) : Except String Props :=
  (matching q (r.candidates q)).map fun rules =>
    let props := finish r.tables q rules
    if r.debug then withSources q rules props else props

/-- The report of a query that could not be answered. -/
def failure (r : Resolver) (q : Query) : LogRecord :=
  ⟨.error, .resolution,
    "Override resolution failed for theme=" ++ r.themeName ++ " component=" ++ q.component⟩

/-- The answer to a query from the rules, kept if it may be. -/
def answer (r : Resolver) (q : Query) : Answer :=
  match r.compute q with
  | .error _ => { props := ∅, resolver := r, log := [r.failure q] }
  | .ok props =>
    if r.mayKeep q then { props, resolver := { r with cache := r.cache.set q.key props } }
    else { props, resolver := r }

/-- The answer to a query: the one kept for its key, if it may be kept and there is one, or the
one from the rules. -/
def resolve (r : Resolver) (q : Query) : Answer :=
  if r.mayKeep q then
    match r.cache.get q.key with
    | (some props, cache) => { props, resolver := { r with cache } }
    | (none, _) => r.answer q
  else r.answer q

/-- The resolver without answers kept. -/
def clear (r : Resolver) : Resolver := { r with cache := r.cache.clear }

end Resolver

end StyleCascade

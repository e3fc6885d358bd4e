import StyleCascade.Proofs.CascadeValues

/-!
# Declarations that do not depend on each other

Two declarations side by side may trade places unless they can get in each other's way: unless
they weigh the same, give the same property and apply to the same query.  What a query is given
for a property is told by the rules that apply to it and give the property, in the order of their
weight; two rules that trade places there without a trace leave no trace in the answer, whether
the properties stay or are turned into class names.

* `sortBy_filter_swap` — neighbours of different weight, or of which one is left out, trade places
  without a trace in a stable sort.
* `get?_cascade_filter` — the rules that count for a property.
* `SameProps`, `sameProps_finish` — properties with the same values are turned into class names
  alike.
* `IndependentRules` — two rules that cannot get in each other's way.
* `resolve_compileAll_swap` — their declarations may trade places.
-/

namespace StyleCascade

/-! ## Neighbours in a sorted list -/

section
variable {α : Type} {weight : α → Int} {a b : α}

/-- Neighbours of different weight are in different tiers. -/
theorem sortBy_swap_of_ne (h : weight a ≠ weight b) (pre post : List α) :
    sortBy weight (pre ++ a :: b :: post) = sortBy weight (pre ++ b :: a :: post) := by
  refine sortBy_eq_of_tiers fun k => ?_
  simp only [tier, List.filter_append, List.filter_cons]
  by_cases ha : weight a = k
  · have hb : (weight b == k) = false := by
      rw [beq_eq_false_iff_ne, ← ha]
      exact Ne.symm h
    simp [ha, hb]
  · have ha' : (weight a == k) = false := by simpa using ha
    simp [ha']

theorem filter_swap_of_false {p : α → Bool} (h : p a = false ∨ p b = false) (pre post : List α) :
    (pre ++ a :: b :: post).filter p = (pre ++ b :: a :: post).filter p := by
  simp only [List.filter_append, List.filter_cons]
  rcases h with h | h
  · simp [h]
  · simp [h]

/-- **Neighbours trade places.**  If they differ in weight, or one of them is left out, a stable
sort does not show which of them came first. -/
theorem sortBy_filter_swap {p : α → Bool}
    (h : weight a ≠ weight b ∨ p a = false ∨ p b = false) (pre post : List α) :
    sortBy weight ((pre ++ a :: b :: post).filter p) =
      sortBy weight ((pre ++ b :: a :: post).filter p) := by
  rcases h with hweight | hout
  · rw [← filter_sortBy, ← filter_sortBy, sortBy_swap_of_ne hweight]
  · rw [filter_swap_of_false hout]

end

/-! ## The rules that count for a property -/

/-- Whether a rule gives a property. -/
def Rule.gives (name : String) (rule : Rule) : Bool := (rule.props.get? name).isSome

theorem valuesOf_filter_gives (name : String) (rules : List Rule) :
    valuesOf name (rules.filter (Rule.gives name)) = valuesOf name rules := by
  rw [valuesOf, List.filterMap_filter]
  congr 1
  funext rule
  cases hvalue : rule.props.get? name with
  | none => simp [Rule.gives, hvalue]
  | some value => simp [Rule.gives, hvalue]

/-- **The rules that count.**  Of the rules that lie over each other only those that give a
property have a say in it. -/
theorem get?_cascade_filter (p : Rule → Bool) (name : String) (rules : List Rule) :
    (cascade (rules.filter p)).get? name =
      combineAll name none
        (valuesOf name (sortBy Rule.specificity (rules.filter fun r => r.gives name && p r))) := by
  rw [get?_cascade, ← valuesOf_filter_gives, byRisingSpecificity_eq_sortBy, filter_sortBy,
    List.filter_filter]

/-! ## Properties with the same values -/

/-- Properties that have the same values, in whatever order. -/
def SameProps (props props' : Props) : Prop := ∀ name, props.get? name = props'.get? name

theorem SameProps.erase {props props' : Props} (h : SameProps props props') (name : String) :
    SameProps (props.erase name) (props'.erase name) := by
  intro other
  rw [Mapping.get?_erase, Mapping.get?_erase, h other]

theorem SameProps.insert {props props' : Props} (h : SameProps props props') (name : String)
    (value : Value) : SameProps (props.insert name value) (props'.insert name value) := by
  intro other
  rw [Mapping.get?_insert, Mapping.get?_insert, h other]

/-- The classes that are taken out depend on the values only. -/
theorem sameProps_foldl_takeClass (tables : ClassTables) (names : List String)
    {props props' : Props} (h : SameProps props props') (classes : List String) :
    SameProps (names.foldl (takeClass tables) (props, classes)).1
        (names.foldl (takeClass tables) (props', classes)).1 ∧
      (names.foldl (takeClass tables) (props, classes)).2 =
        (names.foldl (takeClass tables) (props', classes)).2 := by
  induction names generalizing props props' classes with
  | nil => exact ⟨h, rfl⟩
  | cons name rest ih =>
    have hname := h name
    simp only [List.foldl_cons, takeClass, hname]
    cases (props'.get? name).bind (tables.lookup name) with
    | none => exact ih h classes
    | some found => exact ih (h.erase name) (classes ++ [found])

theorem sameProps_plainProps (tables : ClassTables) {props props' : Props}
    (h : SameProps props props') :
    SameProps (plainProps tables props) (plainProps tables props') := by
  obtain ⟨hprops, hclasses⟩ :=
    sameProps_foldl_takeClass tables ClassTables.mappedNames (h.erase "ui") []
  simp only [plainProps, hclasses, hprops "class"]
  split
  · exact hprops
  · exact hprops.insert "class" _

/-- **Class names.**  Answers from rules that give the same values together have the same values,
for instances of either kind. -/
theorem sameProps_finish (tables : ClassTables) (q : Query) {rules rules' : List Rule}
    (h : SameProps (cascade rules) (cascade rules')) :
    SameProps (finish tables q rules) (finish tables q rules') := by
  simp only [finish]
  split
  · exact h
  · exact sameProps_plainProps tables h

/-! ## Rules that cannot get in each other's way -/

/-- Two rules that cannot get in each other's way. -/
inductive IndependentRules (a b : Rule) : Prop where
  /-- One of them is the more specific one. -/
  | weights (h : a.specificity ≠ b.specificity)
  /-- They have no property in common. -/
  | props (h : ∀ name ∈ a.props.names, name ∉ b.props.names)
  /-- No query whose element answers has both of them apply. -/
  | queries (h : ∀ q : Query, q.NeverFails →
      ¬ (a.appliesTo q = .ok true ∧ b.appliesTo q = .ok true))

theorem Rule.gives_iff {name : String} {rule : Rule} :
    rule.gives name = true ↔ name ∈ rule.props.names := by
  rw [Rule.gives, Option.isSome_iff_exists, Mapping.mem_names_iff]

theorem Rule.selects_iff {q : Query} {rule : Rule} :
    rule.selects q = true ↔ rule.appliesTo q = .ok true := by
  rw [Rule.selects]
  cases rule.appliesTo q <;> simp

/-- Of two independent rules of one weight, one does not count for the property and the query. -/
theorem IndependentRules.counts {a b : Rule} (h : IndependentRules a b) {q : Query}
    (hanswers : q.NeverFails) (name : String) :
    a.specificity ≠ b.specificity ∨ (a.gives name && a.selects q) = false ∨
      (b.gives name && b.selects q) = false := by
  by_cases hboth : (a.gives name && a.selects q) = true ∧ (b.gives name && b.selects q) = true
  · simp only [Bool.and_eq_true, Rule.gives_iff, Rule.selects_iff] at hboth
    obtain ⟨⟨hgives, happlies⟩, hgives', happlies'⟩ := hboth
    cases h with
    | weights hweights => exact .inl hweights
    | props hprops => exact absurd hgives' (hprops name hgives)
    | queries hqueries => exact absurd ⟨happlies, happlies'⟩ (hqueries q hanswers)
  · rw [not_and_or, Bool.not_eq_true, Bool.not_eq_true] at hboth
    exact .inr hboth

/-- Together with any other rules, two independent rules give the same values in either order. -/
theorem IndependentRules.sameProps {a b : Rule} (h : IndependentRules a b) {q : Query}
    (hanswers : q.NeverFails) (pre post : List Rule) :
    SameProps (cascade ((pre ++ a :: b :: post).filter (Rule.selects q)))
      (cascade ((pre ++ b :: a :: post).filter (Rule.selects q))) := by
  intro name
  rw [get?_cascade_filter, get?_cascade_filter, sortBy_filter_swap (h.counts hanswers name)]

/-- A query whose element answers is given the cascade of the rules that apply, whatever the order
in which the rules are kept. -/
theorem Query.NeverFails.resolve_bySpecificity {q : Query} (hanswers : q.NeverFails)
    (tables : ClassTables) (rules : List Rule) :
    ∃ props, resolve tables (bySpecificity rules) q = .ok props ∧
      SameProps props (finish tables q (rules.filter (Rule.selects q))) := by
  refine ⟨_, by rw [resolve, hanswers.matching_eq]; rfl, sameProps_finish tables q ?_⟩
  rw [cascade_filter_bySpecificity]
  exact fun _ => rfl

/-- **Independent declarations may trade places.**  A query whose element answers is given the same
value for every property, whichever of two neighbouring declarations comes first, if their rules
differ in specificity, have no property in common or never apply to one query. -/
theorem resolve_compileAll_swap {known : List String} {fallback : String} {a b : String × Value}
    (h : IndependentRules (Rule.compile known fallback a.1 a.2)
      (Rule.compile known fallback b.1 b.2))
    (pre post : List (String × Value)) (tables : ClassTables) {q : Query}
    (hanswers : q.NeverFails) :
    ∃ props props',
      resolve tables (compileAll known fallback (pre ++ a :: b :: post)) q = .ok props ∧
      resolve tables (compileAll known fallback (pre ++ b :: a :: post)) q = .ok props' ∧
      ∀ name, props.get? name = props'.get? name := by
  obtain ⟨props, hprops, hsame⟩ := hanswers.resolve_bySpecificity tables
    ((pre ++ a :: b :: post).map fun e => Rule.compile known fallback e.1 e.2)
  obtain ⟨props', hprops', hsame'⟩ := hanswers.resolve_bySpecificity tables
    ((pre ++ b :: a :: post).map fun e => Rule.compile known fallback e.1 e.2)
  refine ⟨props, props', hprops, hprops', ?_⟩
  have hswap := sameProps_finish tables q (h.sameProps hanswers
    (pre.map fun e => Rule.compile known fallback e.1 e.2)
    (post.map fun e => Rule.compile known fallback e.1 e.2))
  intro name
  rw [List.map_append, List.map_cons, List.map_cons] at hsame hsame'
  rw [hsame name, hsame' name]
  exact hswap name

/-- Two contexts of one weight, both with class names, of a button whose element has a type: no
query is in both contexts. -/
theorem resolve_compileAll_swap_contexts :
    let a : String × Value := ("button.chat", .mapping [("class", .text "round")])
    let b : String × Value := ("button.sidebar", .mapping [("class", .text "flat")])
    let pre : List (String × Value) := [("button[type]", .mapping [("class", .text "base")])]
    let q : Query :=
      { component := "button"
        context := some "sidebar"
        element := some (.ofAttributes (.ofList [("type", "submit")])) }
    IndependentRules (Rule.compile standardContexts standardComponent a.1 a.2)
        (Rule.compile standardContexts standardComponent b.1 b.2) ∧
      q.NeverFails ∧
      ∃ props props',
        resolve standardTables
          (compileAll standardContexts standardComponent (pre ++ a :: b :: [])) q = .ok props ∧
        resolve standardTables
          (compileAll standardContexts standardComponent (pre ++ b :: a :: [])) q = .ok props' ∧
        ∀ name, props.get? name = props'.get? name := by
  intro a b pre q
  have hcontext : (Rule.compile standardContexts standardComponent a.1 a.2).target.context =
      some "chat" := by decide +kernel
  have hcontext' : (Rule.compile standardContexts standardComponent b.1 b.2).target.context =
      some "sidebar" := by decide +kernel
  have hindependent : IndependentRules (Rule.compile standardContexts standardComponent a.1 a.2)
      (Rule.compile standardContexts standardComponent b.1 b.2) := by
    refine .queries fun q' _ hboth => ?_
    obtain ⟨⟨_, hchat, _⟩, _⟩ := Rule.appliesTo_eq_true_iff.1 hboth.1
    obtain ⟨⟨_, hsidebar, _⟩, _⟩ := Rule.appliesTo_eq_true_iff.1 hboth.2
    rw [hcontext] at hchat
    rw [hcontext'] at hsidebar
    have hchat' : q'.context = some "chat" := by simpa [partAgrees] using hchat
    rw [hchat'] at hsidebar
    exact absurd hsidebar (by decide)
  have hanswers : q.NeverFails := by
    rintro e ⟨⟩
    exact Element.neverFails_ofAttributes _
  exact ⟨hindependent, hanswers,
    resolve_compileAll_swap hindependent pre [] standardTables hanswers⟩

end StyleCascade

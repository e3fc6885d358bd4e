import StyleCascade.Proofs.Answers
import StyleCascade.Proofs.Weights

/-!
# Longer selectors ask for more

A selector without a state may be continued by a further clause or by a state.  Its rule then asks
for all that it asked for before, and it weighs ten more.  This is less plain than it looks, for
the context and the identifier are looked for in the whole text: the clause at the end may make
one of them up together with a value in front of it.  It does so only where there was none.

* `Continuation` — what a selector may be continued by.
* `Target.Refines`, `Rule.appliesTo_of_refines` — a target that asks for at least as much applies
  to no further query.
* `looseValue_append` — a value that the lenient reader finds does not change with what follows.
* `specificity_compile_continuation` — the continued rule outranks the other one.
* `compile_continuation` — it outranks and narrows it.
-/

namespace StyleCascade

open StyleCascade.Text StyleCascade.Selector

/-! ## Targets that ask for more -/

/-- A target asks for all that another one asks for. -/
structure Target.Refines (target base : Target) : Prop where
  component : target.component = base.component
  context : ∀ name ∈ base.context, name ∈ target.context
  identifier : ∀ name ∈ base.identifier, name ∈ target.identifier
  state : ∀ name ∈ base.state, name ∈ target.state
  attributes : base.attributes ⊆ target.attributes

theorem partAgrees_of_refines {part base actual : Option String}
    (h : ∀ name ∈ base, name ∈ part) (hagrees : partAgrees part actual = true) :
    partAgrees base actual = true := by
  cases base with
  | none => rfl
  | some name =>
    rw [Option.mem_def.1 (h name rfl)] at hagrees
    exact hagrees

/-- An element satisfies clauses if it answers each of them, with a value that is accepted. -/
theorem Element.satisfies_eq_true_iff {e : Element} {clauses : List AttributeClause} :
    e.satisfies clauses = .ok true ↔
      ∀ clause ∈ clauses, ∃ value, e.ask clause.name = .ok value ∧ clause.accepts value = true := by
  induction clauses with
  | nil => simp [Element.satisfies]
  | cons clause rest ih =>
    rw [List.forall_mem_cons, Element.satisfies]
    cases hask : e.ask clause.name with
    | error reason => simp
    | ok value =>
      by_cases haccepts : clause.accepts value = true
      · simp [haccepts, ih]
      · simp [haccepts]

/-- **Narrowing.**  A rule whose target asks for all that another one asks for applies only where
the other one applies. -/
theorem Rule.appliesTo_of_refines {rule base : Rule} (h : rule.target.Refines base.target)
    {q : Query} (happlies : rule.appliesTo q = .ok true) : base.appliesTo q = .ok true := by
  rw [Rule.appliesTo_eq_true_iff] at happlies ⊢
  obtain ⟨⟨hcomponent, hcontext, hidentifier, hstate⟩, hattributes⟩ := happlies
  refine ⟨⟨?_, ?_, ?_, ?_⟩, ?_⟩
  · rw [← h.component]
    exact hcomponent
  · exact partAgrees_of_refines h.context hcontext
  · exact partAgrees_of_refines h.identifier hidentifier
  · exact partAgrees_of_refines h.state hstate
  · rcases hattributes with hnil | ⟨e, helement, hsatisfies⟩
    · have hsubset := h.attributes
      rw [hnil] at hsubset
      exact .inl (List.subset_nil.1 hsubset)
    · refine .inr ⟨e, helement, ?_⟩
      rw [Element.satisfies_eq_true_iff] at hsatisfies ⊢
      intro clause hclause
      exact hsatisfies clause (h.attributes hclause)

/-! ## Loose values and what follows -/

theorem spill_append {clauses : List AttributeClause} {text : List Char}
    (h : spill clauses = some text) (more : List AttributeClause) :
    spill (clauses ++ more) = some text := by
  induction clauses generalizing text with
  | nil => cases h
  | cons clause rest ih =>
    obtain ⟨name, op, value⟩ := clause
    cases op with
    | present =>
      obtain ⟨behind, hbehind, rfl⟩ := Option.map_eq_some_iff.1 h
      rw [List.cons_append, spill, ih hbehind]
      rfl
    | _ => exact h

/-- A value is found only where some clause compares its attribute with one. -/
theorem spill_append_of_looseValue {attr : String} {clauses : List AttributeClause}
    {value : List Char} (h : looseValue attr clauses = some value) (more : List AttributeClause) :
    spill (clauses ++ more) = spill clauses := by
  induction clauses with
  | nil => cases h
  | cons clause rest ih =>
    obtain ⟨name, op, expected⟩ := clause
    cases op with
    | present =>
      have hnone : (AttributeClause.mk name .present expected).valueOf? attr = none := by
        simp [AttributeClause.valueOf?]
      rw [List.cons_append, spill, spill]
      rw [looseValue, hnone, Option.map_none, Option.none_or] at h
      rcases Option.or_eq_some_iff.1 h with hspill | ⟨_, hrest⟩
      · split at hspill
        · obtain ⟨text, htext, _⟩ := Option.map_eq_some_iff.1 hspill
          rw [htext, spill_append htext]
        · cases hspill
      · rw [ih hrest]
    | _ => rfl

/-- **A value that is found stays.**  What follows the clauses may bring about a value where the
lenient reader found none, but it never changes the one that it found. -/
theorem looseValue_append {attr : String} {clauses : List AttributeClause} {value : List Char}
    (h : looseValue attr clauses = some value) (more : List AttributeClause) :
    looseValue attr (clauses ++ more) = some value := by
  induction clauses with
  | nil => cases h
  | cons clause rest ih =>
    rw [List.cons_append, looseValue]
    rw [looseValue] at h
    rcases Option.or_eq_some_iff.1 h with hown | ⟨hown, hbehind⟩
    · rw [hown]
      rfl
    · rw [hown, Option.none_or]
      rcases Option.or_eq_some_iff.1 hbehind with hopened | ⟨hopened, hrest⟩
      · split at hopened
        · rename_i hopens
          obtain ⟨text, htext, rfl⟩ := Option.map_eq_some_iff.1 hopened
          rw [if_pos hopens, spill_append htext]
          rfl
        · cases hopened
      · -- the value stands further back, so the text that a quote runs on over ends before `more`
        rw [spill_append_of_looseValue hrest, hopened, Option.none_or]
        exact ih hrest

/-! ## Continued selectors -/

/-- What a selector without a state may be continued by. -/
inductive Continuation where
  /-- A bracketed clause. -/
  | clause (item : AttributeClause)
  /-- A state. -/
  | state (name : String)
  deriving Repr, DecidableEq

/-- The continuation as a row of clauses. -/
def Continuation.clauses : Continuation → List AttributeClause
  | .clause item => [item]
  | .state _ => []

/-- The state that the continuation brings. -/
def Continuation.state? : Continuation → Option String
  | .clause _ => none
  | .state name => some name

/-- A continuation as it is written. -/
def Continuation.text : Continuation → String
  | .clause item => item.text
  | .state name => ":" ++ name

/-- The continuation holds words of the grammar. -/
def Continuation.IsValid : Continuation → Prop
  | .clause item => item.IsValid
  | .state name => IsNameWord name

/-- A selector without a state, continued. -/
def Compound.continuedBy (c : Compound) (more : Continuation) : Compound :=
  { c with clauses := c.clauses ++ more.clauses, state := more.state? }

theorem Continuation.toList_text (more : Continuation) :
    more.text.toList = clausesText more.clauses ++ stateText more.state? := by
  cases more with
  | clause item => simp [text, clauses, state?, stateText]
  | state name => simp [text, clauses, state?, stateText]

section
variable {c : Compound} {more : Continuation}

theorem Compound.toList_text_continuedBy (hstate : c.state = none) (more : Continuation) :
    (c.continuedBy more).text.toList = c.text.toList ++ more.text.toList := by
  rw [Compound.toList_text, Compound.toList_text, Continuation.toList_text, hstate]
  simp [Compound.continuedBy, clausesText, stateText]

theorem Compound.IsValid.continuedBy (h : c.IsValid) (hmore : more.IsValid) :
    (c.continuedBy more).IsValid := by
  refine ⟨h.tag, h.shorthands, h.separated, List.forall_mem_append.2 ⟨h.clauses, ?_⟩, ?_⟩
  · cases more with
    | clause item => exact List.forall_mem_singleton.2 hmore
    | state name => simp [Continuation.clauses]
  · cases more with
    | clause item => simp [Compound.continuedBy, Continuation.state?]
    | state name =>
      rintro _ ⟨⟩
      exact hmore

theorem Compound.looseClauses_continuedBy (known : List String) (c : Compound)
    (more : Continuation) :
    (c.continuedBy more).looseClauses known = c.looseClauses known ++ more.clauses := by
  rw [Compound.looseClauses, Compound.looseClauses, List.append_assoc]
  rfl

/-- A clause weighs as much as a state. -/
theorem Compound.weight_continuedBy (known : List String) (hstate : c.state = none)
    (more : Continuation) : (c.continuedBy more).weight known = c.weight known + 10 := by
  rw [Compound.weight, Compound.weight, Compound.looseClauses_continuedBy, hstate,
    List.length_append]
  cases more with
  | clause item =>
    show componentWeight + 10 * (_ + 1) + 10 * 0 = componentWeight + 10 * _ + 10 * 0 + 10
    omega
  | state name =>
    show componentWeight + 10 * (_ + 0) + 10 * 1 = componentWeight + 10 * _ + 10 * 0 + 10
    omega

/-- A selector that is continued is read as one of the grammar. -/
theorem Compound.IsReadingOf.continuedBy {selector : String} (h : c.IsReadingOf selector)
    (hblanks : trim selector.toList = selector.toList) (hstate : c.state = none)
    (hmore : more.IsValid) : (c.continuedBy more).IsReadingOf (selector ++ more.text) := by
  have hvalid := h.valid.continuedBy hmore
  have htext : (selector ++ more.text).toList = (c.continuedBy more).text.toList := by
    rw [String.toList_append, Compound.toList_text_continuedBy hstate, ← h.text, hblanks]
  refine ⟨hvalid, ?_⟩
  rw [htext]
  exact (Compound.isReadingOf_text hvalid).text

/-! ## The rule of a continued selector -/

theorem looseValue_mem_of_continuedBy (known : List String) (attr : String)
    (more : Continuation) :
    ∀ name ∈ (looseValue attr (c.looseClauses known)).map String.ofList,
      name ∈ (looseValue attr ((c.continuedBy more).looseClauses known)).map String.ofList := by
  intro name hname
  obtain ⟨value, hvalue, rfl⟩ := Option.map_eq_some_iff.1 hname
  rw [Compound.looseClauses_continuedBy, looseValue_append hvalue]
  rfl

/-- The lenient target of a continued selector asks for all that the one of the selector asks
for. -/
theorem Compound.IsReadingOf.lenientTarget_refines {known : List String}
    {fallback selector : String} (h : c.IsReadingOf selector)
    (hblanks : trim selector.toList = selector.toList) (hstate : c.state = none)
    (hmore : more.IsValid) :
    (lenientTarget known fallback (selector ++ more.text)).Refines
      (lenientTarget known fallback selector) := by
  have hlonger := h.continuedBy hblanks hstate hmore
  rw [lenientTarget_of_isValid h.valid h.text, lenientTarget_of_isValid hlonger.valid hlonger.text]
  refine ⟨rfl, ?_, ?_, ?_, ?_⟩
  · exact looseValue_mem_of_continuedBy known contextAttribute more
  · exact looseValue_mem_of_continuedBy known identifierAttribute more
  · intro name hname
    rw [hstate] at hname
    cases hname
  · intro item hitem
    obtain ⟨hmem, hkept⟩ := List.mem_filter.1 hitem
    exact List.mem_filter.2 ⟨List.mem_append_left more.clauses hmem, hkept⟩

theorem specificity_compile_continuation {known : List String} {fallback selector : String}
    (h : c.IsReadingOf selector) (hblanks : trim selector.toList = selector.toList)
    (hstate : c.state = none) (hmore : more.IsValid) (props props' : Value) :
    (Rule.compile known fallback (selector ++ more.text) props').specificity =
      (Rule.compile known fallback selector props).specificity + 10 := by
  have hlonger := h.continuedBy hblanks hstate hmore
  have hweight : specificity (normalize known (selector ++ more.text)) =
      specificity (normalize known selector) + 10 := by
    rw [specificity_of_isValid h.valid h.text, specificity_of_isValid hlonger.valid hlonger.text,
      Compound.weight_continuedBy known hstate]
  simp only [Rule.compile, hweight]
  omega

/-- **A further clause narrows and outranks.**  If a selector of the grammar that has neither
blanks at its ends nor a state is continued by a clause or by a state, the rule weighs exactly ten
more, and it applies to no query to which the rule of the selector does not apply; nothing is asked
of the element of the query. -/
theorem compile_continuation {known : List String} {fallback selector : String}
    (h : parseCompound selector = .ok c) (hblanks : trim selector.toList = selector.toList)
    (hstate : c.state = none) (hmore : more.IsValid) (props props' : Value) :
    (Rule.compile known fallback (selector ++ more.text) props').specificity =
        (Rule.compile known fallback selector props).specificity + 10 ∧
      ∀ q : Query,
        (Rule.compile known fallback (selector ++ more.text) props').appliesTo q = .ok true →
          (Rule.compile known fallback selector props).appliesTo q = .ok true := by
  have hreading := parseCompound_eq_ok_iff.1 h
  refine ⟨specificity_compile_continuation hreading hblanks hstate hmore props props', ?_⟩
  have hrefines : (Rule.compile known fallback (selector ++ more.text) props').target.Refines
      (Rule.compile known fallback selector props).target :=
    hreading.lenientTarget_refines hblanks hstate hmore
  intro q happlies
  exact Rule.appliesTo_of_refines hrefines happlies

end

/-- A clause that makes up a context together with the value in front of it: the context is a
further condition. -/
theorem compile_continuation_spilled :
    let c : Compound := ⟨"button", [], [⟨"title", .equals, some "[data-context="⟩], none⟩
    let more : Continuation := .clause ⟨"alt", .equals, some "]"⟩
    let rule := Rule.compile standardContexts standardComponent "button[title=\"[data-context=\"]"
    let longer := Rule.compile standardContexts standardComponent
      ("button[title=\"[data-context=\"]" ++ more.text)
    parseCompound "button[title=\"[data-context=\"]" = .ok c ∧
      trim "button[title=\"[data-context=\"]".toList = "button[title=\"[data-context=\"]".toList ∧
      c.state = none ∧ more.IsValid ∧
      (rule .null).target.context = none ∧ (longer .null).target.context = some "][alt=" ∧
      (longer .null).specificity = (rule .null).specificity + 10 ∧
      ∀ q : Query, (longer .null).appliesTo q = .ok true → (rule .null).appliesTo q = .ok true := by
  intro c more rule longer
  have hparse : parseCompound "button[title=\"[data-context=\"]" = .ok c :=
    eq_ok_of_toOption (by decide +kernel)
  have hblanks : trim "button[title=\"[data-context=\"]".toList =
      "button[title=\"[data-context=\"]".toList := by decide +kernel
  have hmore : more.IsValid :=
    ⟨⟨'a', "lt".toList, rfl, by decide, List.all_eq_true.1 (by decide)⟩, "]", rfl, by decide⟩
  have hcontext : (rule .null).target.context = none := by decide +kernel
  have hspilled : (longer .null).target.context = some "][alt=" := by decide +kernel
  exact ⟨hparse, hblanks, rfl, hmore, hcontext, hspilled,
    compile_continuation hparse hblanks rfl hmore .null .null⟩

end StyleCascade

import StyleCascade.Proofs.LenientReading

/-!
# Where the two readers agree

Of a selector of the grammar the strict and the lenient reader give the same tag, state and
attribute clauses.  For the context and the identifier the lenient reader depends on more than
the strict one: on whether a shorthand is attached to what stands in front of it, and on
brackets inside values.

* `Compound.looseContext`, `Compound.looseIdentifier` — what the lenient reader makes of the
  parts of a selector.
* `lenientTarget_of_parseCompound` — the whole lenient target.
* `strictTarget_eq_lenientTarget_of_isAttached` — the readers agree where every name in front of a
  shorthand ends in a word character and no value has a bracket.
* `strictTarget_eq_lenientTarget_iff` — they agree exactly where the two loose values are those of
  the grammar.
-/

namespace StyleCascade

open StyleCascade.Text StyleCascade.Selector

/-! ## The loose parts of a target -/

/-- The context that the lenient reader finds: the first that an attached shorthand of a known
context names, or else the loose value of its attribute. -/
def Compound.looseContext (known : List String) (c : Compound) : Option String :=
  (looseValue contextAttribute (c.looseClauses known)).map String.ofList

/-- The identifier that the lenient reader finds: the first that an attached shorthand names, or
else the loose value of its attribute. -/
def Compound.looseIdentifier (known : List String) (c : Compound) : Option String :=
  (looseValue identifierAttribute (c.looseClauses known)).map String.ofList

/-- **The lenient target.**  But for the context and the identifier it is the one of the
grammar. -/
theorem lenientTarget_of_parseCompound {known : List String} {fallback selector : String}
    {c : Compound} (h : parseCompound selector = .ok c) :
    lenientTarget known fallback selector =
      { c.target known with
        context := c.looseContext known
        identifier := c.looseIdentifier known } := by
  obtain ⟨htext, hvalid⟩ := parseCompound_ok h
  exact lenientTarget_of_isValid hvalid htext

theorem eq_ok_of_toOption {ε α : Type} {result : Except ε α} {a : α}
    (h : result.toOption = some a) : result = .ok a := by
  cases result with
  | error _ => cases h
  | ok _ => exact congrArg _ (Option.some.inj h)

/-! ## Attached shorthands -/

/-- The name of a shorthand. -/
def Shorthand.name : Shorthand → String
  | .context name => name
  | .identifier name => name

/-- Every name with a shorthand behind it ends in a word character, and no value of a clause has
a bracket that opens. -/
structure Compound.IsAttached (c : Compound) : Prop where
  shorthands : ∀ item ∈ c.shorthands.dropLast, endsInWord item.name.toList = true
  values : ∀ clause ∈ c.clauses, '[' ∉ (clause.value.getD "").toList

/-- The segment of a shorthand that is attached. -/
def Shorthand.attachedSegment : Shorthand → Segment
  | .context name => .word '.' name.toList
  | .identifier name => .clause identifierAttribute name.toList

/-- The segment of a shorthand that is attached, after both passes. -/
def Shorthand.expandedSegment (known : List String) : Shorthand → Segment
  | .context name =>
    if known.contains name then .clause contextAttribute name.toList else .word '.' name.toList
  | .identifier name => .clause identifierAttribute name.toList

section
variable {items : List Shorthand}

theorem endsInWord_tail {item next : Shorthand} {others : List Shorthand}
    (h : ∀ i ∈ (item :: next :: others).dropLast, endsInWord i.name.toList = true) :
    endsInWord item.name.toList = true ∧
      ∀ i ∈ (next :: others).dropLast, endsInWord i.name.toList = true := by
  rw [List.dropLast_cons_cons, List.forall_mem_cons] at h
  exact h

theorem shorthandSegments_of_attached
    (h : ∀ item ∈ items.dropLast, endsInWord item.name.toList = true) :
    shorthandSegments true items = items.map Shorthand.attachedSegment := by
  induction items with
  | nil => rfl
  | cons item rest ih =>
    cases rest with
    | nil => cases item <;> rfl
    | cons next others =>
      obtain ⟨hitem, hrest⟩ := endsInWord_tail h
      have htail := ih hrest
      cases item with
      | context name =>
        rw [Shorthand.name] at hitem
        rw [shorthandSegments, hitem, htail]
        rfl
      | identifier name =>
        rw [Shorthand.name] at hitem
        rw [shorthandSegments, hitem, htail]
        rfl

theorem startsWithHash_attached (items : List Shorthand) :
    startsWithHash (items.map Shorthand.attachedSegment) = false := by
  cases items with
  | nil => rfl
  | cons item rest => cases item <;> rfl

theorem contextSegments_context (known : List String) (name : String) (rest : List Shorthand) :
    contextSegments known true
        (.word '.' name.toList :: rest.map Shorthand.attachedSegment) =
      Shorthand.expandedSegment known (.context name) ::
        contextSegments known (endsInWord name.toList) (rest.map Shorthand.attachedSegment) := by
  rw [contextSegments, startsWithHash_attached, String.ofList_toList, Shorthand.expandedSegment]
  cases known.contains name <;> rfl

theorem contextSegments_of_attached {known : List String}
    (h : ∀ item ∈ items.dropLast, endsInWord item.name.toList = true) :
    contextSegments known true (items.map Shorthand.attachedSegment) =
      items.map (Shorthand.expandedSegment known) := by
  induction items with
  | nil => rfl
  | cons item rest ih =>
    cases rest with
    | nil =>
      cases item with
      | context name => exact contextSegments_context known name []
      | identifier name => rfl
    | cons next others =>
      obtain ⟨hitem, hrest⟩ := endsInWord_tail h
      have htail := ih hrest
      cases item with
      | context name =>
        have hcontext := contextSegments_context known name (next :: others)
        rw [Shorthand.name] at hitem
        rw [hitem, htail] at hcontext
        exact hcontext
      | identifier name =>
        rw [List.map_cons, Shorthand.attachedSegment, contextSegments, htail]
        rfl

/-- Attached shorthands are expanded one by one. -/
theorem Compound.looseSegments_of_attached {c : Compound} (known : List String)
    (h : ∀ item ∈ c.shorthands.dropLast, endsInWord item.name.toList = true) :
    c.looseSegments known = c.shorthands.map (Shorthand.expandedSegment known) := by
  rw [Compound.looseSegments, shorthandSegments_of_attached h, contextSegments_of_attached h]

end

/-! ## Loose values without brackets -/

/-- Where no value has a bracket, the loose value is the first one that a clause asks for. -/
theorem looseValue_of_not_mem {attr : String} {clauses : List AttributeClause}
    (h : ∀ clause ∈ clauses, '[' ∉ (clause.value.getD "").toList) :
    looseValue attr clauses =
      (clauses.findSome? (AttributeClause.valueOf? attr)).map String.toList := by
  induction clauses with
  | nil => rfl
  | cons clause rest ih =>
    rw [List.forall_mem_cons] at h
    rw [looseValue, opensClause_of_not_mem h.1, ih h.2, List.findSome?_cons]
    cases clause.valueOf? attr <;> rfl

theorem map_ofList_looseValue {attr : String} {clauses : List AttributeClause}
    (h : ∀ clause ∈ clauses, '[' ∉ (clause.value.getD "").toList) :
    (looseValue attr clauses).map String.ofList =
      clauses.findSome? (AttributeClause.valueOf? attr) := by
  rw [looseValue_of_not_mem h]
  simp [Option.map_map, Function.comp_def]

/-- The clauses that stand for shorthands hold no brackets inside. -/
theorem bracket_not_mem_looseClauses {c : Compound} (hvalid : c.IsValid) (known : List String)
    (hvalues : ∀ clause ∈ c.clauses, '[' ∉ (clause.value.getD "").toList) :
    ∀ clause ∈ c.looseClauses known, '[' ∉ (clause.value.getD "").toList := by
  rw [Compound.looseClauses, List.forall_mem_append]
  refine ⟨?_, hvalues⟩
  intro clause hclause
  obtain ⟨segment, hsegment, heq⟩ := List.mem_filterMap.1 hclause
  have hsvalid := isValid_looseSegments hvalid known segment hsegment
  cases segment with
  | clause attr name =>
    cases heq
    exact bracket_not_mem_shorthandClause attr hsvalid.2
  | word mark name => cases heq

theorem findSome?_filterMap_expandedSegment {known : List String} {attr : String}
    {value? : Shorthand → Option String} (items : List Shorthand)
    (h : ∀ item ∈ items, ((item.expandedSegment known).clause?.bind
      (AttributeClause.valueOf? attr)) = value? item) :
    ((items.map (Shorthand.expandedSegment known)).filterMap Segment.clause?).findSome?
      (AttributeClause.valueOf? attr) = items.findSome? value? := by
  induction items with
  | nil => rfl
  | cons item rest ih =>
    rw [List.forall_mem_cons] at h
    rw [List.findSome?_cons, ← h.1, List.map_cons, List.filterMap_cons]
    cases hclause : (item.expandedSegment known).clause? with
    | none => exact ih h.2
    | some clause =>
      show (clause :: _).findSome? _ = _
      rw [List.findSome?_cons, Option.bind_some, ih h.2]

theorem Shorthand.shorthandName {item : Shorthand} (h : item.IsValid) :
    ShorthandName item.name.toList := by
  cases item with
  | context name => exact shorthandName_of_nameWord (isNameWord_iff.1 h)
  | identifier name =>
    obtain ⟨words, hne, hwords, heq⟩ := isValid_identifier_iff.1 h
    rw [Shorthand.name, heq]
    exact shorthandName_dotted hne hwords

/-- The clause of an expanded shorthand asks for the context that the shorthand names. -/
theorem valueOf?_context_expandedSegment {item : Shorthand} (h : item.IsValid)
    (known : List String) :
    (item.expandedSegment known).clause?.bind (AttributeClause.valueOf? contextAttribute) =
      item.context? known := by
  have hname := Shorthand.shorthandName h
  cases item with
  | context name =>
    rw [Shorthand.expandedSegment, Shorthand.context?]
    cases known.contains name with
    | true =>
      have hvalue := valueOf?_shorthandClause contextAttribute hname
      rw [Shorthand.name, String.ofList_toList] at hvalue
      exact hvalue
    | false => rfl
  | identifier name => exact valueOf?_shorthandClause_of_ne (by decide) name.toList

/-- The clause of an expanded shorthand asks for the identifier that the shorthand names. -/
theorem valueOf?_identifier_expandedSegment {item : Shorthand} (h : item.IsValid)
    (known : List String) :
    (item.expandedSegment known).clause?.bind (AttributeClause.valueOf? identifierAttribute) =
      item.identifier? := by
  have hname := Shorthand.shorthandName h
  cases item with
  | context name =>
    rw [Shorthand.expandedSegment]
    split
    · exact valueOf?_shorthandClause_of_ne (by decide) name.toList
    · rfl
  | identifier name =>
    have hvalue := valueOf?_shorthandClause identifierAttribute hname
    rw [Shorthand.name, String.ofList_toList] at hvalue
    exact hvalue

/-- **Attached shorthands.**  Where every name with a shorthand behind it ends in a word character
and no value has a bracket that opens, the readers agree. -/
theorem strictTarget_eq_lenientTarget_of_isAttached {known : List String}
    {fallback selector : String} {c : Compound} (h : parseCompound selector = .ok c)
    (hattached : c.IsAttached) :
    strictTarget known selector = .ok (lenientTarget known fallback selector) := by
  have hvalid := (parseCompound_ok h).2
  have hrow := Compound.looseSegments_of_attached known hattached.shorthands
  have hbrackets := bracket_not_mem_looseClauses hvalid known hattached.values
  have hvalue : ∀ attr, (looseValue attr (c.looseClauses known)).map String.ofList =
      ((c.shorthands.map (Shorthand.expandedSegment known)).filterMap Segment.clause? ++
        c.clauses).findSome? (AttributeClause.valueOf? attr) := by
    intro attr
    rw [map_ofList_looseValue hbrackets, Compound.looseClauses, hrow]
  have hcontext : c.looseContext known = (c.target known).context := by
    rw [Compound.looseContext, hvalue, List.findSome?_append,
      findSome?_filterMap_expandedSegment c.shorthands fun item hitem =>
        valueOf?_context_expandedSegment (hvalid.shorthands item hitem) known]
    rfl
  have hidentifier : c.looseIdentifier known = (c.target known).identifier := by
    rw [Compound.looseIdentifier, hvalue, List.findSome?_append,
      findSome?_filterMap_expandedSegment c.shorthands fun item hitem =>
        valueOf?_identifier_expandedSegment (hvalid.shorthands item hitem) known]
    rfl
  rw [lenientTarget_of_parseCompound h, hcontext, hidentifier, strictTarget, h]
  rfl

/-! ## The two readers -/

/-- **Where the readers agree.**  On a selector of the grammar the lenient reader gives the
target that the strict one gives exactly where its context and its identifier are those of the
grammar.  So it is where every name with a shorthand behind it ends in a word character and no
value has a bracket that opens. -/
theorem strictTarget_eq_lenientTarget_iff {known : List String} {fallback selector : String}
    {c : Compound} (h : parseCompound selector = .ok c) :
    (strictTarget known selector = .ok (lenientTarget known fallback selector) ↔
      c.looseContext known = (c.target known).context ∧
        c.looseIdentifier known = (c.target known).identifier) ∧
    (c.IsAttached →
      strictTarget known selector = .ok (lenientTarget known fallback selector)) := by
  refine ⟨?_, strictTarget_eq_lenientTarget_of_isAttached h⟩
  have hstrict : strictTarget known selector = .ok (c.target known) := by
    rw [strictTarget, h]
    rfl
  rw [hstrict, lenientTarget_of_parseCompound h]
  constructor
  · intro heq
    have htarget := Except.ok.inj heq
    exact ⟨(congrArg Target.context htarget).symm, (congrArg Target.identifier htarget).symm⟩
  · rintro ⟨hcontext, hidentifier⟩
    rw [hcontext, hidentifier]

/-- All shorthands are attached, so the readers agree. -/
theorem strictTarget_eq_lenientTarget_iff_attached :
    let selector := "button.chat#send.x[title=\"a\"]:hover"
    let c : Compound := ⟨"button", [.context "chat", .identifier "send.x"],
      [⟨"title", .equals, some "a"⟩], some "hover"⟩
    parseCompound selector = .ok c ∧ c.IsAttached ∧
      strictTarget standardContexts selector =
        .ok (lenientTarget standardContexts standardComponent selector) ∧
      c.looseContext standardContexts = (c.target standardContexts).context ∧
      c.looseIdentifier standardContexts = (c.target standardContexts).identifier ∧
      c.target standardContexts =
        ⟨"button", some "chat", some "send.x", some "hover", [⟨"title", .equals, some "a"⟩]⟩ := by
  intro selector c
  have hparse : parseCompound selector = .ok c := eq_ok_of_toOption (by decide +kernel)
  have hattached : c.IsAttached := ⟨by decide, by decide⟩
  have hagree : strictTarget standardContexts selector =
      .ok (lenientTarget standardContexts standardComponent selector) :=
    (strictTarget_eq_lenientTarget_iff hparse).2 hattached
  obtain ⟨hcontext, hidentifier⟩ := (strictTarget_eq_lenientTarget_iff hparse).1.1 hagree
  exact ⟨hparse, hattached, hagree, hcontext, hidentifier, by decide +kernel⟩

/-- Behind a word that ends in a hyphen the strict reader finds a context and the lenient one
does not. -/
theorem exists_strictTarget_ne_lenientTarget :
    ∃ target, strictTarget standardContexts "button.foo-.chat" = .ok target ∧
      lenientTarget standardContexts standardComponent "button.foo-.chat" ≠ target := by
  refine ⟨⟨"button", some "chat", none, none, []⟩, eq_ok_of_toOption ?_, ?_⟩
  · decide +kernel
  · decide +kernel

end StyleCascade

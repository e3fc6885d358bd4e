import StyleCascade.Proofs.Narrowing

/-!
# Clauses in any order

The lenient reader looks for each part of a target on its own, so a tag may be continued by clauses
and a state in any order.  Tag, state and attribute clauses are indeed the same in every order.
Context and identifier are, but for a value that runs across clauses: where the value of a clause
ends in the beginning of a clause for the attribute, and the next value starts with a bracket that
closes, the text between the two is read as a value, and which text that is depends on the order.

* `rowSelector` — a tag that is continued by a row of clauses and states.
* `crossing`, `named` — the value of an attribute that runs across clauses of a row, and the one
  that a clause of the row gives.
* `targetOf_rowSelector` — the target of such a selector, told from its items.
* `sameUpToOrder_iff_crossing` — when two orders of a row are read alike.
* `sameUpToOrder_of_apart` — rows that are read alike in every order.
* `target_of_perm` — what the order of a row matters for.
-/

namespace StyleCascade

open StyleCascade.Text StyleCascade.Selector

/-! ## Rows -/

/-- The text of clauses and states one behind the other. -/
def rowText (items : List Continuation) : List Char := items.flatMap fun item => item.text.toList

@[simp] theorem rowText_nil : rowText [] = [] := rfl

@[simp] theorem rowText_cons (item : Continuation) (items : List Continuation) :
    rowText (item :: items) = item.text.toList ++ rowText items :=
  List.flatMap_cons

/-- A selector without shorthands: a tag that is continued by a row of clauses and states. -/
def rowSelector (tag : String) (items : List Continuation) : String :=
  tag ++ String.join (items.map Continuation.text)

theorem toList_rowSelector (tag : String) (items : List Continuation) :
    (rowSelector tag items).toList = tag.toList ++ rowText items := by
  simp [rowSelector, rowText, List.flatMap_map]

theorem Continuation.toList_text_state (name : String) :
    (Continuation.state name).text.toList = ':' :: name.toList :=
  toList_text (.state name)

section
variable {item : Continuation} {items : List Continuation}

/-- Each item starts with its own sign. -/
theorem stopsAt_rowText {p : Char → Bool} (hbracket : p '[' = false) (hcolon : p ':' = false)
    (hvalid : ∀ item ∈ items, item.IsValid) : StopsAt p (rowText items) := by
  cases items with
  | nil => exact stopsAt_nil p
  | cons item rest =>
    rw [rowText_cons]
    cases item with
    | clause item =>
      obtain ⟨text, htext⟩ := (isClause_text (hvalid _ List.mem_cons_self)).exists_cons
      rw [Continuation.text, htext]
      exact stopsAt_cons.2 hbracket
    | state name =>
      rw [Continuation.toList_text_state]
      exact stopsAt_cons.2 hcolon

theorem Continuation.IsValid.stopsAt_reverse (h : item.IsValid) :
    StopsAt isBlank item.text.toList.reverse := by
  cases item with
  | clause item => exact stopsAt_reverse_of_getLast? (isClause_text h).getLast? (by decide)
  | state name =>
    have hstate : ∀ name' ∈ some name, IsNameWord name' := by
      rintro _ ⟨⟩
      exact h
    rw [toList_text_state]
    exact stopsAt_reverse_stateText hstate

theorem trim_rowSelector {tag : String} (htag : IsTag tag)
    (hvalid : ∀ item ∈ items, item.IsValid) :
    trim (tag.toList ++ rowText items) = tag.toList ++ rowText items := by
  have hrow : StopsAt isBlank (rowText items).reverse :=
    stopsAt_reverse_flatMap fun item hitem => (hvalid item hitem).stopsAt_reverse
  exact trim_tag_append htag hrow

/-! ## Values across clauses -/

/-- The value that an item has in quotes; a state and a clause without a value have none. -/
def Continuation.value : Continuation → List Char
  | .clause item => (item.value.getD "").toList
  | .state _ => []

/-- The value of an attribute that an item gives. -/
def Continuation.valueOf? (attr : String) : Continuation → Option String
  | .clause item => item.valueOf? attr
  | .state _ => none

/-- Whether the value of an item starts, blanks aside, with a bracket that closes. -/
def Continuation.closes (item : Continuation) : Bool := (trimStart item.value).head? == some ']'

/-- The text of items up to the next value, if that value starts with a bracket that closes. -/
def runOn : List Continuation → Option (List Char)
  | [] => none
  | .clause ⟨name, op, some value⟩ :: _ =>
    if (Continuation.clause ⟨name, op, some value⟩).closes then
      some ('[' :: name.toList ++ op.token.toList)
    else none
  | item :: rest => (runOn rest).map (item.text.toList ++ ·)

/-- The value of an attribute that runs across clauses.  It starts at the end of the first value
that opens a clause for the attribute and from which the text runs on, if no clause up to there
gives a value of the attribute. -/
def crossing (attr : String) : List Continuation → Option (List Char)
  | [] => none
  | item :: rest =>
    if (item.valueOf? attr).isSome then none
    else
      (if opensClause attr item.value then (runOn rest).map (']' :: ·) else none).or
        (crossing attr rest)

/-- The value of an attribute that a clause gives, the first one of the row. -/
def named (attr : String) (items : List Continuation) : Option (List Char) :=
  (items.findSome? (Continuation.valueOf? attr)).map String.toList

theorem named_cons (attr : String) (item : Continuation) (rest : List Continuation) :
    named attr (item :: rest) =
      ((item.valueOf? attr).map String.toList).or (named attr rest) := by
  rw [named, List.findSome?_cons]
  cases item.valueOf? attr <;> rfl

/-- An item has a value, or there are no quotes in its text. -/
theorem Continuation.IsValid.value_cases (h : item.IsValid) :
    ('"' ∉ item.text.toList ∧
        ∀ rest, runOn (item :: rest) = (runOn rest).map (item.text.toList ++ ·)) ∨
      ∃ name op value, IsAttributeName name ∧ op ≠ .present ∧
        item = .clause ⟨name, op, some value⟩ := by
  cases item with
  | clause item =>
    obtain ⟨name, hname, hcases⟩ := AttributeClause.IsValid.exists_name h
    rcases hcases with rfl | ⟨op, value, hop, -, rfl⟩
    · refine .inl ⟨?_, fun _ => rfl⟩
      rw [text, AttributeClause.toList_text_present]
      simp [not_mem_of_isName (isName_of_mem_attributeName hname) (c := '"') (by decide)]
    · exact .inr ⟨name, op, value, hname, hop, rfl⟩
  | state name =>
    refine .inl ⟨?_, fun _ => rfl⟩
    rw [toList_text_state]
    exact not_mem_mark_cons (isNameWord_iff.1 h).2 (by decide) (by decide)

/-- A quote in front of a text and of a row runs on to the next quote. -/
theorem closedValue?_rowText (hvalid : ∀ item ∈ items, item.IsValid) {u : List Char}
    (hquote : '"' ∉ u) :
    (closedValue? ('"' :: (u ++ rowText items))).map Prod.fst = (runOn items).map (u ++ ·) := by
  induction items generalizing u with
  | nil =>
    rw [rowText_nil, List.append_nil, closedValue?, quotedValue?_of_not_mem hquote]
    rfl
  | cons item rest ih =>
    rw [List.forall_mem_cons] at hvalid
    rw [rowText_cons]
    rcases hvalid.1.value_cases with ⟨hplain, hrun⟩ | ⟨name, op, value, hname, hop, rfl⟩
    · -- an item without a value joins the text in front, for which the induction is general
      have hquote' : '"' ∉ u ++ item.text.toList := by
        rw [List.mem_append, not_or]
        exact ⟨hquote, hplain⟩
      rw [← List.append_assoc, ih hvalid.2 hquote', hrun, Option.map_map]
      congr 1
      funext more
      exact List.append_assoc u item.text.toList more
    · rw [Continuation.text, closedValue?_text hop hname value hquote, runOn, Continuation.closes,
        Continuation.value, Option.getD_some]
      split
      · rfl
      · rfl

theorem bracket_not_mem_state {name : String} (h : (Continuation.state name).IsValid) :
    '[' ∉ (Continuation.state name).text.toList := by
  rw [Continuation.toList_text_state]
  exact not_mem_mark_cons (isNameWord_iff.1 h).2 (by decide) (by decide)

/-- **One item.**  The lenient reader finds the value that the item gives, or else one that its
value opens, or else one behind it. -/
theorem firstValue_item {attr : String} (hattr : PlainName attr) (h : item.IsValid)
    (rest : List Char) :
    firstValue attr (item.text.toList ++ rest) =
      ((item.valueOf? attr).map String.toList).or
        ((if opensClause attr item.value then (closedValue? ('"' :: ']' :: rest)).map Prod.fst
          else none).or (firstValue attr rest)) := by
  cases item with
  | clause item => exact firstValue_text hattr h rest
  | state name => exact firstValue_append (bracket_not_mem_state h) rest

/-- **The search for a value** in a row finds one that runs across clauses, or else the first one
that a clause gives. -/
theorem firstValue_rowText {attr : String} (hattr : PlainName attr)
    (hvalid : ∀ item ∈ items, item.IsValid) :
    firstValue attr (rowText items) = (crossing attr items).or (named attr items) := by
  induction items with
  | nil => rfl
  | cons item rest ih =>
    rw [List.forall_mem_cons] at hvalid
    have hrun : (closedValue? ('"' :: ']' :: rowText rest)).map Prod.fst =
        (runOn rest).map (']' :: ·) :=
      closedValue?_rowText hvalid.2 (u := [']']) (by decide)
    rw [rowText_cons, firstValue_item hattr hvalid.1, ih hvalid.2, hrun, crossing, named_cons]
    cases item.valueOf? attr with
    | some value => rfl
    | none => simp [Option.or_assoc]

/-! ## Attribute clauses and states of a row -/

/-- The search for attribute clauses finds those of a row, in order. -/
theorem findAllFrom_rowText (hvalid : ∀ item ∈ items, item.IsValid) (before : Option Char) :
    (findAllFrom attributeClause before (rowText items)).filterMap id =
      (items.flatMap Continuation.clauses).filter (! ·.isConsumed) := by
  induction items generalizing before with
  | nil =>
    rw [rowText_nil, findAllFrom_nil]
    rfl
  | cons item rest ih =>
    rw [List.forall_mem_cons] at hvalid
    rw [rowText_cons, List.flatMap_cons, List.filter_append]
    cases item with
    | clause item =>
      rw [Continuation.text, findAllFrom_found (isClause_text hvalid.1).ne_nil
        (attributeClause_text hvalid.1 before _), List.filterMap_cons, ih hvalid.2,
        Continuation.clauses, List.filter_cons]
      cases item.isConsumed <;> rfl
    | state name =>
      rw [findAllFrom_attributeClause_append (bracket_not_mem_state hvalid.1), ih hvalid.2]
      rfl

/-- What is left of an item without its clause. -/
def Continuation.blanked : Continuation → List Char
  | .clause _ => [' ']
  | .state name => ':' :: name.toList

theorem replaceFrom_rowText (hvalid : ∀ item ∈ items, item.IsValid) (before : Option Char) :
    replaceFrom clause (fun _ => [' ']) before (rowText items) =
      items.flatMap Continuation.blanked := by
  induction items generalizing before with
  | nil => exact replaceFrom_nil _ before
  | cons item rest ih =>
    rw [List.forall_mem_cons] at hvalid
    rw [rowText_cons, List.flatMap_cons]
    cases item with
    | clause item =>
      rw [Continuation.text, replaceFrom_isClause (isClause_text hvalid.1), ih hvalid.2]
      rfl
    | state name =>
      rw [replaceFrom_clause_append (bracket_not_mem_state hvalid.1), ih hvalid.2,
        Continuation.toList_text_state]
      rfl

/-- The search for a state finds the first one of a row. -/
theorem findFrom_stateName_blanked (hvalid : ∀ item ∈ items, item.IsValid)
    (before : Option Char) :
    findFrom stateName before (items.flatMap Continuation.blanked) =
      (items.findSome? Continuation.state?).map String.toList := by
  induction items generalizing before with
  | nil => exact findFrom_nil before
  | cons item rest ih =>
    rw [List.forall_mem_cons] at hvalid
    rw [List.flatMap_cons, List.findSome?_cons]
    cases item with
    | clause item =>
      rw [Continuation.blanked, List.singleton_append, findFrom_cons,
        stateName_of_ne (by decide), ih hvalid.2]
      rfl
    | state name =>
      have hrest : StopsAt isName (rest.flatMap Continuation.blanked) := by
        cases rest with
        | nil => exact stopsAt_nil _
        | cons next others =>
          rw [List.flatMap_cons]
          cases next with
          | clause item => exact stopsAt_cons.2 (by decide)
          | state name => exact stopsAt_cons.2 (by decide)
      rw [Continuation.blanked, List.cons_append, findFrom_cons, stateName_append hvalid.1 hrest]
      rfl

/-! ## The target of a row -/

/-- **The target of a row.**  Tag, state and attribute clauses are those of the row; context and
identifier are values that run across clauses, or else the ones that clauses give. -/
theorem targetOf_rowSelector {tag : String} (htag : IsTag tag)
    (hvalid : ∀ item ∈ items, item.IsValid) (fallback : String) :
    targetOf fallback (rowSelector tag items) =
      { component := tag
        context := ((crossing contextAttribute items).or
          (named contextAttribute items)).map String.ofList
        identifier := ((crossing identifierAttribute items).or
          (named identifierAttribute items)).map String.ofList
        state := items.findSome? Continuation.state?
        attributes := (items.flatMap Continuation.clauses).filter (! ·.isConsumed) } := by
  have hbracket : '[' ∉ tag.toList := not_mem_of_isName (isName_of_mem_tag htag) (by decide)
  have hcolon : ':' ∉ tag.toList := not_mem_of_isName (isName_of_mem_tag htag) (by decide)
  have hrow : StopsAt isName (rowText items) := stopsAt_rowText (by decide) (by decide) hvalid
  have hvalue : ∀ {attr}, PlainName attr →
      find? (equalsValue attr) (tag.toList ++ rowText items) =
        (crossing attr items).or (named attr items) := by
    intro attr hattr
    exact (firstValue_append hbracket _).trans (firstValue_rowText hattr hvalid)
  have hstate : find? stateName (blankClauses (tag.toList ++ rowText items)) =
      (items.findSome? Continuation.state?).map String.toList := by
    have hnone : ∀ before, ∀ c ∈ tag.toList, ∀ cs, stateName before (c :: cs) = none :=
      eq_none_of_not_mem (fun _ _ cs hne => stateName_of_ne hne cs) hcolon
    rw [blankClauses, replaceClauses, replaceAll_eq_replaceFrom,
      replaceFrom_clause_append hbracket, replaceFrom_rowText hvalid, find?_eq_findFrom,
      findFrom_append_of_none hnone, findFrom_stateName_blanked hvalid]
  have hattributes : (findAll attributeClause (tag.toList ++ rowText items)).filterMap id =
      (items.flatMap Continuation.clauses).filter (! ·.isConsumed) := by
    rw [findAll_eq_findAllFrom, findAllFrom_attributeClause_append hbracket]
    exact findAllFrom_rowText hvalid _
  rw [targetOf, toList_rowSelector, targetOfChars]
  simp only [trim_rowSelector htag hvalid, hvalue plainName_contextAttribute,
    hvalue plainName_identifierAttribute, hstate, hattributes, leadingTag?_tag htag hrow]
  simp [Option.map_map, Function.comp_def]

end

/-! ## Any order -/

/-- Two targets differ at most in their contexts and identifiers and in the order of their attribute
clauses. -/
structure Target.SameShape (target other : Target) : Prop where
  component : target.component = other.component
  state : target.state = other.state
  attributes : target.attributes.Perm other.attributes

/-- Two targets differ at most in the order of their attribute clauses. -/
structure Target.SameUpToOrder (target other : Target) : Prop extends target.SameShape other where
  context : target.context = other.context
  identifier : target.identifier = other.identifier

/-- Whether an item asks for a value of the given attribute, even an empty one. -/
def Continuation.compares (attr : String) : Continuation → Bool
  | .clause item => item.name == attr && item.operator == .equals
  | .state _ => false

/-- The items of a row are words of the grammar, and the state, the context and the identifier are
each given at most once. -/
structure IsRow (items : List Continuation) : Prop where
  valid : ∀ item ∈ items, item.IsValid
  state : items.countP (·.state?.isSome) ≤ 1
  context : items.countP (Continuation.compares contextAttribute) ≤ 1
  identifier : items.countP (Continuation.compares identifierAttribute) ≤ 1

theorem IsRow.valid_of_perm {items items' : List Continuation} (h : IsRow items)
    (hperm : items'.Perm items) : ∀ item ∈ items', item.IsValid :=
  fun item hitem => h.valid item (hperm.subset hitem)

/-- What is given at most once is found in every order. -/
theorem findSome?_eq_of_perm {α β : Type} {f : α → Option β} {l l' : List α} (hperm : l'.Perm l)
    (hone : l.countP (fun a => (f a).isSome) ≤ 1) : l'.findSome? f = l.findSome? f := by
  have hperm' := hperm.filterMap f
  rw [← List.length_filterMap_eq_countP] at hone
  rw [← List.head?_filterMap, ← List.head?_filterMap]
  cases hfound : l.filterMap f with
  | nil =>
    rw [hfound, List.perm_nil] at hperm'
    rw [hperm']
  | cons b bs =>
    rw [hfound, List.length_cons] at hone
    have hnil : bs = [] := List.length_eq_zero_iff.1 (by omega)
    subst hnil
    rw [hfound, List.perm_singleton] at hperm'
    rw [hperm']

section
variable {attr tag : String} {items items' : List Continuation}

theorem compares_of_valueOf? {item : Continuation} (h : (item.valueOf? attr).isSome = true) :
    item.compares attr = true := by
  cases item with
  | clause item =>
    rw [Continuation.valueOf?, AttributeClause.valueOf?] at h
    split at h
    · assumption
    · cases h
  | state name => cases h

theorem named_eq_of_perm (hperm : items'.Perm items)
    (hone : items.countP (Continuation.compares attr) ≤ 1) :
    named attr items' = named attr items := by
  have hle : items.countP (fun item => (item.valueOf? attr).isSome) ≤
      items.countP (Continuation.compares attr) :=
    List.countP_mono_left fun item _ h => compares_of_valueOf? h
  rw [named, named, findSome?_eq_of_perm hperm (Nat.le_trans hle hone)]

/-- The shape of the target does not depend on the order of a row. -/
theorem sameShape_of_perm (htag : IsTag tag) (hrow : IsRow items) (hperm : items'.Perm items)
    (fallback : String) :
    (targetOf fallback (rowSelector tag items')).SameShape
      (targetOf fallback (rowSelector tag items)) := by
  rw [targetOf_rowSelector htag (hrow.valid_of_perm hperm), targetOf_rowSelector htag hrow.valid]
  exact ⟨rfl, findSome?_eq_of_perm hperm hrow.state,
    (hperm.flatMap_right Continuation.clauses).filter _⟩

theorem sameUpToOrder_iff_crossing (htag : IsTag tag) (hrow : IsRow items)
    (hperm : items'.Perm items) (fallback : String) :
    (targetOf fallback (rowSelector tag items')).SameUpToOrder
        (targetOf fallback (rowSelector tag items)) ↔
      ∀ attr ∈ [contextAttribute, identifierAttribute],
        (crossing attr items').or (named attr items) =
          (crossing attr items).or (named attr items) := by
  have hshape := sameShape_of_perm htag hrow hperm fallback
  have hofList : ∀ {a b : Option (List Char)}, a.map String.ofList = b.map String.ofList ↔ a = b :=
    (Option.map_injective fun _ _ => String.ofList_inj.1).eq_iff
  rw [targetOf_rowSelector htag (hrow.valid_of_perm hperm), targetOf_rowSelector htag hrow.valid,
    named_eq_of_perm hperm hrow.context, named_eq_of_perm hperm hrow.identifier] at hshape ⊢
  rw [List.forall_mem_cons, List.forall_mem_singleton]
  constructor
  · intro h
    exact ⟨hofList.1 h.context, hofList.1 h.identifier⟩
  · rintro ⟨hcontext, hidentifier⟩
    exact ⟨hshape, hofList.2 hcontext, hofList.2 hidentifier⟩

/-! ## Rows without crossing values -/

theorem runOn_eq_none (h : ∀ item ∈ items, item.closes = false) : runOn items = none := by
  fun_induction runOn items with
  | case1 => rfl
  | case2 name op value rest hcloses =>
    rw [h _ List.mem_cons_self] at hcloses
    cases hcloses
  | case3 => rfl
  | case4 item rest _ ih =>
    rw [ih fun next hnext => h next (List.mem_cons_of_mem item hnext)]
    rfl

/-- Of two items in a row, neither has a value that opens a clause which the other one closes. -/
structure Continuation.Apart (attr : String) (a b : Continuation) : Prop where
  left : opensClause attr a.value = true → b.closes = false
  right : opensClause attr b.value = true → a.closes = false

theorem crossing_eq_none (h : items.Pairwise (Continuation.Apart attr)) :
    crossing attr items = none := by
  induction items with
  | nil => rfl
  | cons item rest ih =>
    obtain ⟨hitem, hrest⟩ := List.pairwise_cons.1 h
    have hrun : (if opensClause attr item.value then (runOn rest).map (']' :: ·) else none) =
        none := by
      split
      · rename_i hopens
        rw [runOn_eq_none fun next hnext => (hitem next hnext).left hopens]
        rfl
      · rfl
    rw [crossing, hrun, ih hrest]
    split <;> rfl

/-- Where no value opens a clause that another one closes, the order of a row does not matter. -/
theorem sameUpToOrder_of_apart (htag : IsTag tag) (hrow : IsRow items)
    (hapart : ∀ attr ∈ [contextAttribute, identifierAttribute],
      items.Pairwise (Continuation.Apart attr))
    (hperm : items'.Perm items) (fallback : String) :
    (targetOf fallback (rowSelector tag items')).SameUpToOrder
      (targetOf fallback (rowSelector tag items)) := by
  refine (sameUpToOrder_iff_crossing htag hrow hperm fallback).2 fun attr hattr => ?_
  have hpairs := hapart attr hattr
  have hsymm : ∀ {a b : Continuation}, a.Apart attr b → b.Apart attr a :=
    fun h => ⟨h.right, h.left⟩
  rw [crossing_eq_none hpairs, crossing_eq_none ((hperm.pairwise_iff hsymm).2 hpairs)]

/-- **The order of a row.**  Tag, state and attribute clauses are the same in every order of the
items of a row.  Two orders are read alike if and only if, for the context and for the identifier,
a value that runs across clauses makes no difference between them; so they are where no value opens
a clause that another one closes. -/
theorem target_of_perm (htag : IsTag tag) (hrow : IsRow items) (hperm : items'.Perm items)
    (fallback : String) :
    (targetOf fallback (rowSelector tag items')).SameShape
        (targetOf fallback (rowSelector tag items)) ∧
      ((targetOf fallback (rowSelector tag items')).SameUpToOrder
          (targetOf fallback (rowSelector tag items)) ↔
        ∀ attr ∈ [contextAttribute, identifierAttribute],
          (crossing attr items').or (named attr items) =
            (crossing attr items).or (named attr items)) ∧
      ((∀ attr ∈ [contextAttribute, identifierAttribute],
          items.Pairwise (Continuation.Apart attr)) →
        (targetOf fallback (rowSelector tag items')).SameUpToOrder
          (targetOf fallback (rowSelector tag items))) := by
  refine ⟨sameShape_of_perm htag hrow hperm fallback,
    sameUpToOrder_iff_crossing htag hrow hperm fallback, ?_⟩
  intro hapart
  exact sameUpToOrder_of_apart htag hrow hapart hperm fallback

end

/-- Values that open a clause and one that starts with a bracket, with a state and clauses between
them: two orders in which no value runs across clauses are read alike. -/
theorem target_of_perm_between :
    let opening : Continuation := .clause ⟨"title", .equals, some "[data-id="⟩
    let closing : Continuation := .clause ⟨"alt", .equals, some " ]"⟩
    let hover : Continuation := .state "hover"
    let disabled : Continuation := .clause ⟨"disabled", .present, none⟩
    let chat : Continuation := .clause ⟨"data-context", .equals, some "chat"⟩
    let items := [opening, hover, chat, disabled, closing]
    let items' := [hover, disabled, closing, chat, opening]
    IsTag "button" ∧ IsRow items ∧ items'.Perm items ∧
      rowSelector "button" items =
        "button[title=\"[data-id=\"]:hover[data-context=\"chat\"][disabled][alt=\" ]\"]" ∧
      (targetOf standardComponent (rowSelector "button" items')).SameUpToOrder
        (targetOf standardComponent (rowSelector "button" items)) := by
  intro opening closing hover disabled chat items items'
  have hparse : parseCompound
      "button[title=\"[data-id=\"][data-context=\"chat\"][disabled][alt=\" ]\"]:hover" =
        .ok ⟨"button", [], [⟨"title", .equals, some "[data-id="⟩,
          ⟨"data-context", .equals, some "chat"⟩, ⟨"disabled", .present, none⟩,
          ⟨"alt", .equals, some " ]"⟩], some "hover"⟩ :=
    eq_ok_of_toOption (by decide +kernel)
  obtain ⟨htag, -, -, hclauses, hstate⟩ := (parseCompound_eq_ok_iff.1 hparse).valid
  simp only [List.forall_mem_cons] at hclauses
  obtain ⟨hopening, hchat, hdisabled, hclosing, -⟩ := hclauses
  have hvalid : ∀ item ∈ items, item.IsValid := by
    simp only [items, List.forall_mem_cons]
    exact ⟨hopening, hstate "hover" rfl, hchat, hdisabled, hclosing, List.forall_mem_nil _⟩
  have hrow : IsRow items := ⟨hvalid, by decide, by decide, by decide⟩
  have hperm : items'.Perm items := by decide
  refine ⟨htag, hrow, hperm, by decide +kernel, ?_⟩
  obtain ⟨-, hiff, -⟩ := target_of_perm htag hrow hperm standardComponent
  exact hiff.2 (by decide +kernel)

/-- A value that opens a clause and one that starts with a bracket: what stands between them is the
identifier in one order, and there is none in the other. -/
theorem not_sameUpToOrder_swap :
    let opening : Continuation := .clause ⟨"title", .equals, some "[data-id="⟩
    let closing : Continuation := .clause ⟨"alt", .equals, some "]"⟩
    IsTag "button" ∧ IsRow [opening, closing] ∧ [closing, opening].Perm [opening, closing] ∧
      rowSelector "button" [opening, closing] = "button[title=\"[data-id=\"][alt=\"]\"]" ∧
      (targetOf standardComponent (rowSelector "button" [opening, closing])).identifier =
        some "][alt=" ∧
      (targetOf standardComponent (rowSelector "button" [closing, opening])).identifier = none ∧
      ¬ (targetOf standardComponent (rowSelector "button" [closing, opening])).SameUpToOrder
        (targetOf standardComponent (rowSelector "button" [opening, closing])) := by
  intro opening closing
  have hfound : (targetOf standardComponent (rowSelector "button" [opening, closing])).identifier =
      some "][alt=" := by decide +kernel
  have hnone : (targetOf standardComponent (rowSelector "button" [closing, opening])).identifier =
      none := by decide +kernel
  have hparse : parseCompound "button[title=\"[data-id=\"][alt=\"]\"]" =
      .ok ⟨"button", [], [⟨"title", .equals, some "[data-id="⟩,
        ⟨"alt", .equals, some "]"⟩], none⟩ :=
    eq_ok_of_toOption (by decide +kernel)
  obtain ⟨htag, -, -, hclauses, -⟩ := (parseCompound_eq_ok_iff.1 hparse).valid
  simp only [List.forall_mem_cons] at hclauses
  obtain ⟨hopening, hclosing, -⟩ := hclauses
  have hvalid : ∀ item ∈ [opening, closing], item.IsValid :=
    List.forall_mem_cons.2 ⟨hopening, List.forall_mem_singleton.2 hclosing⟩
  have hrow : IsRow [opening, closing] := ⟨hvalid, by decide, by decide, by decide⟩
  refine ⟨htag, hrow, by decide, by decide +kernel, hfound, hnone, ?_⟩
  intro hsame
  have hidentifier := hsame.identifier
  rw [hfound, hnone] at hidentifier
  cases hidentifier

end StyleCascade

import StyleCascade.Proofs.LenientReading

/-!
# The grammar of the strict reader

The strict reader takes exactly the selectors of the grammar, and it reads a selector back from
its text: what is written in front of a text that does not continue it is read up to that text.
So a text has the parts of one selector at most.

* `readTag_append`, `readShorthands_append`, `readClauses_append`, `readState_stateText` — the four
  parts, read back.
* `Compound.IsReadingOf` — the parts of a selector, told without the reader.
* `parseCompound_eq_ok_iff` — the reader gives these parts and no others.
* `strictTarget_eq_ok_iff_isReadingOf` — which selectors have a strict target, and which target.
-/

namespace StyleCascade

open StyleCascade.Text StyleCascade.Selector

/-! ## What may stand behind a part -/

theorem EndsRow.stopsAt {p : Char → Bool} (hbracket : p '[' = false) (hcolon : p ':' = false)
    {tail : List Char} (h : EndsRow tail) : StopsAt p tail := by
  intro c hc
  rcases h c hc with rfl | rfl
  · exact hbracket
  · exact hcolon

/-- Shorthands begin with a mark, which continues no word in front of it. -/
theorem stopsAt_shorthandsText {p : Char → Bool} (hdot : p '.' = false) (hhash : p '#' = false)
    {tail : List Char} (htail : StopsAt p tail) (items : List Shorthand) :
    StopsAt p (shorthandsText items ++ tail) := by
  cases items with
  | nil => exact htail
  | cons item rest =>
    rw [shorthandsText_cons]
    cases item with
    | context name =>
      rw [toList_text_context]
      exact stopsAt_cons.2 hdot
    | identifier name =>
      rw [toList_text_identifier]
      exact stopsAt_cons.2 hhash

theorem shorthandEnds_of_separated {item : Shorthand} {rest : List Shorthand}
    (hsep : Separated (item :: rest)) {tail : List Char} (htail : EndsRow tail) :
    ShorthandEnds item (shorthandsText rest ++ tail) := by
  cases item with
  | context name =>
    have hstops : StopsAt isName tail := htail.stopsAt (by decide) (by decide)
    exact stopsAt_shorthandsText (by decide) (by decide) hstops rest
  | identifier name =>
    exact endsDotted_of_endsOrStartsWith (endsOrStartsWith_of_separated hsep htail)

namespace Selector

/-! ## The tag and the shorthands -/

theorem readTag_append {tag : String} (h : IsTag tag) {rest : List Char}
    (hrest : StopsAt isWord rest) : readTag (tag.toList ++ rest) = .ok (tag, rest) := by
  obtain ⟨c, cs, heq, hc, hcs⟩ := h
  have htag : String.ofList (c :: cs) = tag := by rw [← heq, String.ofList_toList]
  rw [heq, List.cons_append, readTag, if_pos hc, takeWhile_append_of_stopsAt hcs hrest,
    dropWhile_append_of_stopsAt hcs hrest, htag]

/-- A shorthand is read back in front of a text that does not continue its name. -/
theorem readShorthand_append {item : Shorthand} (h : item.IsValid) {rest : List Char}
    (hrest : ShorthandEnds item rest) :
    readShorthand (item.text.toList ++ rest) = some (.ok (item, rest)) := by
  cases item with
  | context name =>
    have hname : NameWord name.toList := isNameWord_iff.1 h
    have hspan : nameSpan (name.toList ++ rest) = (name.toList, rest) :=
      nameSpan_append_of_stopsAt hname.2 hrest
    have hempty : name.toList.isEmpty = false := by simpa using hname.1
    rw [toList_text_context, List.cons_append, readShorthand]
    simp only [hspan, hempty, String.ofList_toList]
    rfl
  | identifier name =>
    obtain ⟨words, hne, hwords, heq⟩ := isValid_identifier_iff.1 h
    have hspan : dottedSpan (name.toList ++ rest) = (name.toList, rest) := by
      rw [heq]
      exact dottedSpan_dotted_append hwords hrest
    have hhead : (name.toList ++ rest).head?.any isName = true := by
      rw [heq]
      exact head_isName_dotted hne hwords rest
    rw [toList_text_identifier, List.cons_append, readShorthand]
    simp only [hspan, hhead, String.ofList_toList]
    rfl

/-- The reader of shorthands without the reason why it comes to an end. -/
theorem readShorthands_eq (s : List Char) :
    readShorthands s =
      match readShorthand s with
      | none => .ok ([], s)
      | some (.error blamed) => .error blamed
      | some (.ok (item, behind)) =>
        (readShorthands behind).map fun (items, rest) => (item :: items, rest) := by
  rw [readShorthands]
  split
  · rename_i h
    rw [h]
  · rename_i h
    rw [h]
  · rename_i item behind h
    simp only [h]
    cases readShorthands behind with
    | error blamed => rfl
    | ok read => rfl

theorem readShorthands_of_ok {s behind rest : List Char} {item : Shorthand}
    {items : List Shorthand} (h : readShorthand s = some (.ok (item, behind)))
    (hrest : readShorthands behind = .ok (items, rest)) :
    readShorthands s = .ok (item :: items, rest) := by
  rw [readShorthands_eq, h]
  show (readShorthands behind).map _ = _
  rw [hrest]
  rfl

theorem readShorthand_of_endsRow {tail : List Char} (h : EndsRow tail) :
    readShorthand tail = none := by
  cases tail with
  | nil => rfl
  | cons c cs =>
    rcases h c rfl with rfl | rfl
    · rfl
    · rfl

/-- **Shorthands are read back**, where no context stands behind an identifier. -/
theorem readShorthands_append {items : List Shorthand} (hvalid : ∀ item ∈ items, item.IsValid)
    (hsep : Separated items) {tail : List Char} (htail : EndsRow tail) :
    readShorthands (shorthandsText items ++ tail) = .ok (items, tail) := by
  induction items with
  | nil =>
    show readShorthands tail = _
    rw [readShorthands_eq, readShorthand_of_endsRow htail]
  | cons item rest ih =>
    rw [List.forall_mem_cons] at hvalid
    rw [shorthandsText_cons, List.append_assoc]
    have hitem := readShorthand_append hvalid.1 (shorthandEnds_of_separated hsep htail)
    exact readShorthands_of_ok hitem (ih hvalid.2 (separated_tail hsep))

/-! ## Clauses -/

/-- The sign and the value of a clause are read back. -/
theorem readTest_append {op : ClauseOperator} (hop : op ≠ .present) {value : List Char}
    (hquote : '"' ∉ value) (name rest : List Char) :
    readTest name (op.token.toList ++ '"' :: (value ++ '"' :: ']' :: rest)) =
      .ok ((op, some (String.ofList value)), rest) := by
  have hsign := operator?_token hop ('"' :: (value ++ '"' :: ']' :: rest))
  have hvalue := quotedValue?_append hquote (']' :: rest)
  unfold readTest
  split
  · rename_i heq
    rw [heq] at hsign
    cases hsign
  · rename_i heq
    rw [heq] at hsign
    cases hsign
  · simp only [hsign, hvalue]

/-- A clause is read back where its name and what stands behind the name are. -/
theorem readClause_of_test {name : String} (hname : IsAttributeName name) {op : ClauseOperator}
    {value : Option String} {s rest : List Char} (hs : StopsAt isName s)
    (htest : ∀ start, readTest start s = .ok ((op, value), rest)) :
    readClause ('[' :: (name.toList ++ s)) = some (.ok (⟨name, op, value⟩, rest)) := by
  have hread := attributeName?_append hname hs
  obtain ⟨c, cs, heq, _⟩ := hname
  rw [heq, List.cons_append] at hread ⊢
  simp only [readClause, hread, htest]

/-- A clause is read back in front of any text. -/
theorem readClause_append {clause : AttributeClause} (h : clause.IsValid) (rest : List Char) :
    readClause (clause.text.toList ++ rest) = some (.ok (clause, rest)) := by
  obtain ⟨name, hname, rfl | ⟨op, text, hop, hquote, rfl⟩⟩ := h.exists_name
  · rw [AttributeClause.text_present_append]
    exact readClause_of_test hname (stopsAt_cons.2 (by decide)) fun _ => rfl
  · rw [AttributeClause.text_append hop]
    apply readClause_of_test hname (stopsAt_token hop _)
    intro start
    rw [readTest_append hop hquote, String.ofList_toList]

/-- The reader of clauses without the reason why it comes to an end. -/
theorem readClauses_eq (s : List Char) :
    readClauses s =
      match readClause s with
      | none => .ok ([], s)
      | some (.error blamed) => .error blamed
      | some (.ok (item, behind)) =>
        (readClauses behind).map fun (items, rest) => (item :: items, rest) := by
  rw [readClauses]
  split
  · rename_i h
    rw [h]
  · rename_i h
    rw [h]
  · rename_i item behind h
    simp only [h]
    cases readClauses behind with
    | error blamed => rfl
    | ok read => rfl

theorem readClauses_of_ok {s behind rest : List Char} {item : AttributeClause}
    {items : List AttributeClause} (h : readClause s = some (.ok (item, behind)))
    (hrest : readClauses behind = .ok (items, rest)) :
    readClauses s = .ok (item :: items, rest) := by
  rw [readClauses_eq, h]
  show (readClauses behind).map _ = _
  rw [hrest]
  rfl

theorem readClause_stateText (state : Option String) : readClause (stateText state) = none := by
  cases state <;> rfl

/-- **Clauses are read back** in front of a text that does not begin with one. -/
theorem readClauses_append {items : List AttributeClause} (hvalid : ∀ item ∈ items, item.IsValid)
    {tail : List Char} (htail : readClause tail = none) :
    readClauses (clausesText items ++ tail) = .ok (items, tail) := by
  induction items with
  | nil =>
    show readClauses tail = _
    rw [readClauses_eq, htail]
  | cons item rest ih =>
    rw [List.forall_mem_cons] at hvalid
    rw [clausesText_cons, List.append_assoc]
    exact readClauses_of_ok (readClause_append hvalid.1 _) (ih hvalid.2)

/-! ## The state and the whole selector -/

theorem readState_stateText {state : Option String} (h : ∀ name ∈ state, IsNameWord name) :
    readState (stateText state) = .ok state := by
  cases state with
  | none => rfl
  | some name =>
    have hname : NameWord name.toList := isNameWord_iff.1 (h name rfl)
    have hspan : nameSpan name.toList = (name.toList, []) := by
      have happend := nameSpan_append_of_stopsAt hname.2 (stopsAt_nil isName)
      rwa [List.append_nil] at happend
    have hofList : String.ofList name.toList = name := String.ofList_toList
    cases hchars : name.toList with
    | nil => exact absurd hchars hname.1
    | cons c cs =>
      rw [hchars] at hspan hofList
      rw [stateText, hchars]
      simp only [readState, hspan, hofList]

/-- Behind a tag and a row of shorthands, clauses and a state are left to be read. -/
theorem readCompound_append {tag : String} {items : List Shorthand} {tail : List Char}
    (htag : IsTag tag) (hitems : ∀ item ∈ items, item.IsValid) (hsep : Separated items)
    (htail : EndsRow tail) :
    readCompound (tag.toList ++ (shorthandsText items ++ tail)) = do
      let (clauses, rest) ← readClauses tail
      let state ← readState rest
      return { tag, shorthands := items, clauses, state } := by
  have hstops : StopsAt isWord (shorthandsText items ++ tail) :=
    stopsAt_shorthandsText (by decide) (by decide) (htail.stopsAt (by decide) (by decide)) items
  simp only [readCompound, readTag_append htag hstops, readShorthands_append hitems hsep htail,
    bind, Except.bind]

/-- **A selector of the grammar is read back from its text.** -/
theorem readCompound_text {c : Compound} (h : c.IsValid) : readCompound c.text.toList = .ok c := by
  have htail : EndsRow (clausesText c.clauses ++ stateText c.state) :=
    endsRow_clausesText c.clauses (endsRow_stateText c.state) h.clauses
  rw [Compound.toList_text, readCompound_append h.tag h.shorthands h.separated htail]
  simp only [readClauses_append h.clauses (readClause_stateText c.state),
    readState_stateText h.state, bind, Except.bind, pure, Except.pure]

end Selector

/-! ## Readings of a selector -/

/-- Parts of which a selector is the text, but for the blanks at its two ends. -/
structure Compound.IsReadingOf (c : Compound) (selector : String) : Prop where
  valid : c.IsValid
  text : trim selector.toList = c.text.toList

/-- **The strict reader takes exactly the selectors of the grammar.** -/
theorem parseCompound_eq_ok_iff {selector : String} {c : Compound} :
    parseCompound selector = .ok c ↔ c.IsReadingOf selector := by
  constructor
  · intro h
    obtain ⟨htext, hvalid⟩ := parseCompound_ok h
    exact ⟨hvalid, htext⟩
  · rintro ⟨hvalid, htext⟩
    rw [parseCompound]
    simp only [htext, readCompound_text hvalid]
    rfl

/-- **The grammar is unambiguous.** -/
theorem Compound.IsReadingOf.unique {selector : String} {c c' : Compound}
    (h : c.IsReadingOf selector) (h' : c'.IsReadingOf selector) : c = c' := by
  have hread := parseCompound_eq_ok_iff.2 h
  rw [parseCompound_eq_ok_iff.2 h'] at hread
  exact (Except.ok.inj hread).symm

/-! ## What a reading aims at -/

/-- The value of a clause that compares an attribute with a value that is not empty. -/
def AttributeClause.namedBy? (attr : String) : AttributeClause → Option String
  | ⟨name, .equals, some value⟩ => if name = attr ∧ value ≠ "" then some value else none
  | _ => none

/-- The names that a selector has for its context, in order: those of the shorthands that are
known, and the values that clauses compare `data-context` with. -/
def Compound.contextNames (known : List String) (c : Compound) : List String :=
  c.shorthands.filterMap (fun
    | .context name => if name ∈ known then some name else none
    | .identifier _ => none) ++
  c.clauses.filterMap (AttributeClause.namedBy? "data-context")

/-- The names that a selector has for its identifier, in order: those of the shorthands, and the
values that clauses compare `data-id` with. -/
def Compound.identifierNames (c : Compound) : List String :=
  c.shorthands.filterMap (fun
    | .context _ => none
    | .identifier name => some name) ++
  c.clauses.filterMap (AttributeClause.namedBy? "data-id")

theorem AttributeClause.valueOf?_eq_namedBy? (attr : String) :
    AttributeClause.valueOf? attr = AttributeClause.namedBy? attr := by
  funext ⟨name, op, value⟩
  rw [valueOf?]
  by_cases hboth : name = attr ∧ op = .equals
  · obtain ⟨rfl, rfl⟩ := hboth
    cases value with
    | none => simp [namedBy?]
    | some value =>
      by_cases hempty : value = ""
      · simp [namedBy?, hempty]
      · simp [namedBy?, hempty]
  · have hcond : (name == attr && op == .equals) = false := by simpa using hboth
    rw [hcond, if_neg Bool.false_ne_true]
    cases op with
    | equals =>
      have hname : name ≠ attr := fun heq => hboth ⟨heq, rfl⟩
      cases value <;> simp [namedBy?, hname]
    | _ => rfl

theorem Compound.findSome?_context (known : List String) (shorthands : List Shorthand) :
    shorthands.findSome? (Shorthand.context? known) = (shorthands.filterMap fun
      | .context name => if name ∈ known then some name else none
      | .identifier _ => none).head? := by
  rw [List.head?_filterMap]
  congr 1
  funext item
  cases item with
  | context name => simp [Shorthand.context?]
  | identifier name => rfl

/-- **What a reading aims at.**  Its context and its identifier are the first names for them, and
the clauses that name neither are left to the element. -/
theorem Compound.target_eq (known : List String) (c : Compound) :
    c.target known =
      { component := c.tag
        context := (c.contextNames known).head?
        identifier := c.identifierNames.head?
        state := c.state
        attributes := c.clauses.filter fun clause =>
          (clause.namedBy? "data-context").isNone && (clause.namedBy? "data-id").isNone } := by
  have hidentifier : c.shorthands.findSome? Shorthand.identifier? = (c.shorthands.filterMap fun
      | .context _ => none
      | .identifier name => some name).head? := by
    rw [List.head?_filterMap]
    rfl
  have hconsumed : ∀ clause : AttributeClause, (!clause.isConsumed) =
      ((clause.namedBy? "data-context").isNone && (clause.namedBy? "data-id").isNone) := by
    intro clause
    rw [AttributeClause.isConsumed, AttributeClause.valueOf?_eq_namedBy?,
      AttributeClause.valueOf?_eq_namedBy?, Bool.not_or, Option.not_isSome, Option.not_isSome]
    rfl
  rw [target, contextNames, identifierNames, List.head?_append, List.head?_append,
    findSome?_context, hidentifier, List.head?_filterMap (l := c.clauses),
    List.head?_filterMap (l := c.clauses), AttributeClause.valueOf?_eq_namedBy?,
    AttributeClause.valueOf?_eq_namedBy?]
  simp only [hconsumed]
  rfl

/-- **Strict targets.**  A selector has at most one reading, it has a strict target if and only if
it has a reading, and the target is the one of its reading. -/
theorem strictTarget_eq_ok_iff_isReadingOf (known : List String) (selector : String) :
    (∀ c c' : Compound, c.IsReadingOf selector → c'.IsReadingOf selector → c = c') ∧
      ∀ target, strictTarget known selector = .ok target ↔
        ∃ c : Compound, c.IsReadingOf selector ∧ target =
          { component := c.tag
            context := (c.contextNames known).head?
            identifier := c.identifierNames.head?
            state := c.state
            attributes := c.clauses.filter fun clause =>
              (clause.namedBy? "data-context").isNone && (clause.namedBy? "data-id").isNone } := by
  refine ⟨fun c c' h h' => h.unique h', ?_⟩
  intro target
  constructor
  · intro h
    rw [strictTarget] at h
    cases hparse : parseCompound selector with
    | error column =>
      rw [hparse] at h
      cases h
    | ok c =>
      rw [hparse] at h
      refine ⟨c, parseCompound_eq_ok_iff.1 hparse, ?_⟩
      rw [← Compound.target_eq]
      exact (Except.ok.inj h).symm
  · rintro ⟨c, hreading, rfl⟩
    rw [← Compound.target_eq, strictTarget, parseCompound_eq_ok_iff.2 hreading]
    rfl

end StyleCascade

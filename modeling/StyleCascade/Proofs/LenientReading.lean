import StyleCascade.Proofs.Lexemes
import StyleCascade.Proofs.Segments
import StyleCascade.Selector.Lenient

/-!
# What the lenient reader reads

The lenient reader looks for each part of a target on its own.  In an expanded selector of the
grammar it finds the tag, the state and the attribute clauses where they are.  For a value of an
attribute it looks at every bracket, also at those inside values; so it reads the end of a value
as the beginning of a clause, where it looks like one and the next value goes on accordingly.

* `looseValue` — the value of an attribute that the lenient reader finds in a row of clauses.
* `Compound.looseClauses` — the clauses of a selector with its shorthands expanded.
* `firstValue_segmentsText`, `findAllFrom_segmentsText`, `findAllFrom_stateName`,
  `leadingTag?_tag` — the four searches.
* `lenientTarget_of_isValid` — the target that the lenient reader gives.
-/

namespace StyleCascade

open StyleCascade.Text StyleCascade.Selector

/-! ## Values in clauses -/

/-- The text behind the sign of a clause that compares a given attribute, where the bracket of
the clause stands in front of the text. -/
def operand? (attr : String) (s : List Char) : Option (List Char) :=
  (after? attr.toList (trimStart s)).bind fun rest => (after? ['='] (trimStart rest)).map trimStart

/-- A value in quotes that is not empty, in front of a closing bracket. -/
def closedValue? (s : List Char) : Option (List Char × List Char) :=
  (quotedValue? s).bind fun (value, rest) =>
    (after? [']'] (trimStart rest)).bind fun rest =>
      if value.isEmpty then none else some (value, rest)

/-- Whether a value ends in the beginning of a clause that compares a given attribute. -/
def opensClause (attr : String) : List Char → Bool
  | [] => false
  | c :: cs => (c == '[' && operand? attr cs == some []) || opensClause attr cs

/-- The text of clauses up to the next value, if that value starts with a bracket that closes. -/
def spill : List AttributeClause → Option (List Char)
  | [] => none
  | ⟨name, .present, _⟩ :: rest => (spill rest).map ('[' :: name.toList ++ [']'] ++ ·)
  | ⟨name, op, value⟩ :: _ =>
    if (trimStart (value.getD "").toList).head? == some ']' then
      some ('[' :: name.toList ++ op.token.toList)
    else none

/-- The value of an attribute that the lenient reader finds in clauses: the first one that a
clause asks for, unless the value of an earlier clause ends in the beginning of a clause that
asks for the attribute; that one runs on from quote to quote. -/
def looseValue (attr : String) : List AttributeClause → Option (List Char)
  | [] => none
  | clause :: rest =>
    ((clause.valueOf? attr).map String.toList).or
      ((if opensClause attr (clause.value.getD "").toList then (spill rest).map (']' :: ·)
        else none).or (looseValue attr rest))

/-- The clauses of a selector with its shorthands expanded. -/
def Compound.looseClauses (known : List String) (c : Compound) : List AttributeClause :=
  (c.looseSegments known).filterMap Segment.clause? ++ c.clauses

/-! ## The head of a clause -/

/-- Both attributes that a target names have names without blanks and quotes. -/
def PlainName (attr : String) : Prop := ∀ c ∈ attr.toList, isName c = true

theorem plainName_contextAttribute : PlainName contextAttribute :=
  List.all_eq_true.1 (by decide)

theorem plainName_identifierAttribute : PlainName identifierAttribute :=
  List.all_eq_true.1 (by decide)

theorem PlainName.quote_not_mem {attr : String} (h : PlainName attr) : '"' ∉ attr.toList :=
  not_mem_of_isName h (by decide)

theorem equalsValue_bracket (attr : String) (before : Option Char) (cs : List Char) :
    equalsValue attr before ('[' :: cs) = (operand? attr cs).bind closedValue? := by
  rw [operand?, Option.bind_assoc]
  simp only [Option.bind_map]
  rfl

theorem equalsValue_of_ne {attr : String} {before : Option Char} {c : Char} (h : c ≠ '[')
    (cs : List Char) : equalsValue attr before (c :: cs) = none := by
  unfold equalsValue
  split
  · rename_i heq
    exact absurd (List.cons.inj heq).1 h
  · rfl

theorem trimStart_name {name : String} (h : IsAttributeName name) (s : List Char) :
    trimStart (name.toList ++ s) = name.toList ++ s := by
  obtain ⟨c, cs, heq, hc, _⟩ := h
  rw [heq, List.cons_append]
  exact trimStart_cons_of_isName (isName_of_isNameStart hc) _

/-- A clause compares the attribute that it names. -/
theorem operand?_name {attr name : String} (hattr : PlainName attr) (hname : IsAttributeName name)
    {s : List Char} (hs : StopsAt isName s) :
    operand? attr (name.toList ++ s) =
      if name = attr then (after? ['='] (trimStart s)).map trimStart else none := by
  rw [operand?, trimStart_name hname]
  split
  · rename_i heq
    subst heq
    rw [after?_append_self]
    rfl
  · rename_i hne
    cases hfound : after? attr.toList (name.toList ++ s) with
    | none => rfl
    | some rest =>
      obtain ⟨more, hmore, rfl⟩ := after?_name hattr hs hfound
      cases more with
      | nil => exact absurd (String.toList_inj.1 (by simpa using hmore)) hne
      | cons c cs =>
        -- the name goes on, and what goes on is no sign
        have hc : isName c = true := isName_of_mem_attributeName hname c (by rw [hmore]; simp)
        have hsign : (('=' : Char) == c) = false := by
          refine Bool.eq_false_iff.2 fun heq => ?_
          rw [← eq_of_beq heq] at hc
          exact absurd hc (by decide)
        simp [trimStart_cons_of_isName hc, after?, hsign]

theorem after?_token {op : ClauseOperator} (h : op ≠ .present) (rest : List Char) :
    after? ['='] (trimStart (op.token.toList ++ rest)) =
      if op = .equals then some rest else none := by
  cases op with
  | present => exact absurd rfl h
  | _ => rfl

theorem closedValue?_quoted {value : List Char} (h : '"' ∉ value) (rest : List Char) :
    (closedValue? ('"' :: (value ++ '"' :: ']' :: rest))).map Prod.fst =
      if value.isEmpty then none else some value := by
  have hafter : after? [']'] (trimStart (']' :: rest)) = some rest := rfl
  rw [closedValue?, quotedValue?_append h, Option.bind_some]
  simp only [hafter, Option.bind_some]
  cases value <;> rfl

theorem AttributeClause.text_present_append (name : String) (rest : List Char) :
    (AttributeClause.mk name .present none).text.toList ++ rest =
      '[' :: (name.toList ++ ']' :: rest) := by
  rw [toList_text_present]
  simp

theorem AttributeClause.text_append {op : ClauseOperator} (h : op ≠ .present)
    (name value : String) (rest : List Char) :
    (AttributeClause.mk name op (some value)).text.toList ++ rest =
      '[' :: (name.toList ++ (op.token.toList ++ '"' :: (value.toList ++ '"' :: ']' :: rest))) := by
  rw [toList_text_of_ne h]
  simp

/-- At the bracket of a clause the lenient reader finds the value that the clause asks for. -/
theorem equalsValue_text {attr : String} (hattr : PlainName attr) {clause : AttributeClause}
    (hvalid : clause.IsValid) (before : Option Char) (rest : List Char) :
    (equalsValue attr before (clause.text.toList ++ rest)).map Prod.fst =
      (clause.valueOf? attr).map String.toList := by
  obtain ⟨name, hname, rfl | ⟨op, text, hop, hquote, rfl⟩⟩ := hvalid.exists_name
  · have hs : StopsAt isName (']' :: rest) := stopsAt_cons.2 (by decide)
    have hnone : after? ['='] (trimStart (']' :: rest)) = none := rfl
    rw [AttributeClause.text_present_append, equalsValue_bracket, operand?_name hattr hname hs,
      hnone, AttributeClause.valueOf?]
    split <;> simp
  · rw [AttributeClause.text_append hop, equalsValue_bracket,
      operand?_name hattr hname (stopsAt_token hop _), after?_token hop, AttributeClause.valueOf?]
    by_cases hboth : name = attr ∧ op = .equals
    · obtain ⟨rfl, rfl⟩ := hboth
      have htrim : trimStart ('"' :: (text.toList ++ '"' :: ']' :: rest)) =
          '"' :: (text.toList ++ '"' :: ']' :: rest) :=
        trimStart_of_stopsAt (stopsAt_cons.2 (by decide))
      rw [if_pos rfl, if_pos rfl, if_pos (by simp), Option.map_some, htrim, Option.bind_some,
        closedValue?_quoted hquote]
      by_cases hempty : text = ""
      · subst hempty
        rfl
      · have hlist : text.toList.isEmpty = false := by simpa using hempty
        have hfilter : (some text).filter (· != "") = some text := by simpa using hempty
        rw [hlist, if_neg Bool.false_ne_true, hfilter, Option.map_some]
    · have hcond : ¬ (name == attr && op == .equals) = true := by simpa using hboth
      rw [if_neg hcond]
      by_cases heq' : name = attr
      · have hop' : ¬ op = .equals := fun hop' => hboth ⟨heq', hop'⟩
        rw [if_pos heq', if_neg hop']
        rfl
      · rw [if_neg heq']
        rfl

/-! ## Values that open a clause -/

/-- The leftmost value of an attribute, whatever stands in front of the text. -/
def firstValue (attr : String) (s : List Char) : Option (List Char) :=
  findFrom (equalsValue attr) none s

theorem equalsValue_before (attr : String) (before before' : Option Char) (s : List Char) :
    equalsValue attr before s = equalsValue attr before' s := by
  cases s with
  | nil => rfl
  | cons c cs =>
    by_cases hc : c = '['
    · subst hc
      rfl
    · rw [equalsValue_of_ne hc, equalsValue_of_ne hc]

theorem firstValue_cons (attr : String) (c : Char) (cs : List Char) :
    firstValue attr (c :: cs) =
      ((equalsValue attr none (c :: cs)).map Prod.fst).or (firstValue attr cs) := by
  rw [firstValue, findFrom_cons, findFrom_before (equalsValue_before attr) (some c) none]
  rfl

theorem firstValue_append {attr : String} {u : List Char} (h : '[' ∉ u) (s : List Char) :
    firstValue attr (u ++ s) = firstValue attr s := by
  have hnone : ∀ before, ∀ c ∈ u, ∀ cs, equalsValue attr before (c :: cs) = none :=
    eq_none_of_not_mem (fun _ _ cs hne => equalsValue_of_ne hne cs) h
  rw [firstValue, findFrom_append_of_none hnone, findFrom_before (equalsValue_before attr) _ none]
  rfl

theorem operand?_suffix {attr : String} {s rest : List Char} (h : operand? attr s = some rest) :
    rest <:+ s := by
  obtain ⟨s₁, h₁, hmap⟩ := Option.bind_eq_some_iff.1 h
  obtain ⟨s₂, h₂, rfl⟩ := Option.map_eq_some_iff.1 hmap
  have hfirst := (after?_suffix h₁).trans (trimStart_suffix s)
  have hsecond := (after?_suffix h₂).trans (trimStart_suffix s₁)
  exact ((trimStart_suffix s₂).trans hsecond).trans hfirst

/-- The quote behind a value makes no difference for what stands in the value. -/
theorem operand?_append_quote {attr : String} (hattr : PlainName attr) (u rest : List Char) :
    operand? attr (u ++ '"' :: rest) = (operand? attr u).map (· ++ '"' :: rest) := by
  rw [operand?, trimStart_append_quote, after?_append_quote hattr.quote_not_mem, operand?]
  cases after? attr.toList (trimStart u) with
  | none => rfl
  | some s₁ =>
    rw [Option.map_some, Option.bind_some, Option.bind_some, trimStart_append_quote,
      after?_append_quote (by decide)]
    cases after? ['='] (trimStart s₁) with
    | none => rfl
    | some s₂ =>
      rw [Option.map_some, Option.map_some, Option.map_some, Option.map_some,
        trimStart_append_quote]

theorem closedValue?_cons_of_ne {c : Char} (h : c ≠ '"') (cs : List Char) :
    closedValue? (c :: cs) = none := by
  rw [closedValue?, quotedValue?_cons_of_ne h]
  rfl

/-- A bracket inside a value is taken for the beginning of a clause where the value goes on as
one up to its end. -/
theorem operand?_bind_closedValue? {attr : String} (hattr : PlainName attr) {u : List Char}
    (hu : '"' ∉ u) (rest : List Char) :
    (operand? attr (u ++ '"' :: rest)).bind closedValue? =
      if operand? attr u == some [] then closedValue? ('"' :: rest) else none := by
  rw [operand?_append_quote hattr]
  cases hfound : operand? attr u with
  | none => rfl
  | some s =>
    cases s with
    | nil => rfl
    | cons c cs =>
      have hc : c ≠ '"' := by
        rintro rfl
        exact hu ((operand?_suffix hfound).mem List.mem_cons_self)
      rw [Option.map_some, Option.bind_some, List.cons_append, closedValue?_cons_of_ne hc]
      rfl

/-- What the lenient reader finds inside a value and behind it. -/
theorem firstValue_value {attr : String} (hattr : PlainName attr) {value : List Char}
    (hquote : '"' ∉ value) (rest : List Char) :
    firstValue attr (value ++ '"' :: rest) =
      (if opensClause attr value then (closedValue? ('"' :: rest)).map Prod.fst else none).or
        (firstValue attr rest) := by
  induction value with
  | nil =>
    rw [List.nil_append, firstValue_cons, equalsValue_of_ne (by decide)]
    rfl
  | cons c cs ih =>
    rw [List.mem_cons, not_or] at hquote
    rw [List.cons_append, firstValue_cons, ih hquote.2]
    by_cases hc : c = '['
    · subst hc
      rw [equalsValue_bracket, operand?_bind_closedValue? hattr hquote.2, opensClause]
      cases operand? attr cs == some [] with
      | true =>
        cases opensClause attr cs with
        | true => cases closedValue? ('"' :: rest) <;> rfl
        | false => rfl
      | false => rfl
    · have hbracket : (c == '[') = false := by simpa using hc
      rw [equalsValue_of_ne hc, opensClause, hbracket, Bool.false_and, Bool.false_or]
      rfl

/-! ## Values of clauses -/

theorem bracket_not_mem_token (op : ClauseOperator) : '[' ∉ op.token.toList := by
  cases op <;> decide

theorem quote_not_mem_token (op : ClauseOperator) : '"' ∉ op.token.toList :=
  fun hmem => (token_plain op _ hmem).2 rfl

/-- **One clause.**  The lenient reader finds the value that the clause asks for, or else one
that its value opens, or else one behind it. -/
theorem firstValue_text {attr : String} (hattr : PlainName attr) {clause : AttributeClause}
    (hvalid : clause.IsValid) (rest : List Char) :
    firstValue attr (clause.text.toList ++ rest) =
      ((clause.valueOf? attr).map String.toList).or
        ((if opensClause attr (clause.value.getD "").toList then
          (closedValue? ('"' :: ']' :: rest)).map Prod.fst else none).or
            (firstValue attr rest)) := by
  have hhead := equalsValue_text hattr hvalid none rest
  obtain ⟨name, hname, hcases⟩ := hvalid.exists_name
  have hbracket : '[' ∉ name.toList :=
    not_mem_of_isName (isName_of_mem_attributeName hname) (by decide)
  rcases hcases with rfl | ⟨op, text, hop, hquote, rfl⟩
  · rw [AttributeClause.text_present_append] at hhead ⊢
    rw [firstValue_cons, hhead, firstValue_append hbracket, firstValue_cons,
      equalsValue_of_ne (by decide)]
    rfl
  · rw [AttributeClause.text_append hop] at hhead ⊢
    rw [firstValue_cons, hhead, firstValue_append hbracket,
      firstValue_append (bracket_not_mem_token op), firstValue_cons, equalsValue_of_ne (by decide),
      Option.map_none, Option.none_or, firstValue_value hattr hquote, firstValue_cons,
      equalsValue_of_ne (by decide)]
    rfl

theorem bracket_not_mem_stateText {state : Option String}
    (h : ∀ name ∈ state, IsNameWord name) : '[' ∉ stateText state :=
  not_mem_stateText h (by decide) (by decide)

theorem closedValue?_eq_none {u value rest : List Char} (hquote : '"' ∉ u)
    (hvalue : (trimStart value).head? ≠ some ']') :
    closedValue? ('"' :: (u ++ '"' :: (value ++ '"' :: rest))) = none := by
  have hafter : after? [']'] (trimStart (value ++ '"' :: rest)) = none := by
    rw [trimStart_append_quote, after?_append_quote (by decide)]
    cases hfound : after? [']'] (trimStart value) with
    | none => rfl
    | some s =>
      rw [after?_eq_some_iff.1 hfound] at hvalue
      exact absurd rfl hvalue
  rw [closedValue?, quotedValue?_append hquote, Option.bind_some]
  simp only [hafter, Option.bind_none]

theorem closedValue?_of_head? {u value rest : List Char} (hu : u ≠ []) (hquote : '"' ∉ u)
    (hvalue : (trimStart value).head? = some ']') :
    (closedValue? ('"' :: (u ++ '"' :: (value ++ '"' :: rest)))).map Prod.fst = some u := by
  obtain ⟨s, hs⟩ := List.head?_eq_some_iff.1 hvalue
  have hafter : after? [']'] (trimStart (value ++ '"' :: rest)) = some (s ++ '"' :: rest) := by
    rw [trimStart_append_quote, hs]
    rfl
  have hempty : u.isEmpty = false := by simpa using hu
  rw [closedValue?, quotedValue?_append hquote, Option.bind_some]
  simp only [hafter, Option.bind_some, hempty]
  rfl

theorem spill_value {op : ClauseOperator} (h : op ≠ .present) (name value : String)
    (rest : List AttributeClause) :
    spill (⟨name, op, some value⟩ :: rest) =
      if (trimStart value.toList).head? == some ']' then
        some ('[' :: name.toList ++ op.token.toList)
      else none := by
  cases op with
  | present => exact absurd rfl h
  | _ => rfl

/-- A quote in front of a text and of a clause with a value runs on to the quote of the value. -/
theorem closedValue?_text {op : ClauseOperator} (h : op ≠ .present) {name : String}
    (hname : IsAttributeName name) (value : String) {u : List Char} (hquote : '"' ∉ u)
    (rest : List Char) :
    (closedValue? ('"' :: (u ++
        ((AttributeClause.mk name op (some value)).text.toList ++ rest)))).map Prod.fst =
      if (trimStart value.toList).head? == some ']' then
        some (u ++ ('[' :: name.toList ++ op.token.toList))
      else none := by
  have hname' : '"' ∉ name.toList :=
    not_mem_of_isName (isName_of_mem_attributeName hname) (by decide)
  have htext : u ++ ((AttributeClause.mk name op (some value)).text.toList ++ rest) =
      (u ++ ('[' :: name.toList ++ op.token.toList)) ++
        '"' :: (value.toList ++ '"' :: ']' :: rest) := by
    rw [AttributeClause.text_append h]
    simp
  have hquote' : '"' ∉ u ++ ('[' :: name.toList ++ op.token.toList) := by
    simp [hquote, hname', quote_not_mem_token op]
  rw [htext]
  by_cases hhead : (trimStart value.toList).head? = some ']'
  · rw [closedValue?_of_head? (by simp) hquote' hhead, if_pos (by simpa using hhead)]
  · rw [closedValue?_eq_none hquote' hhead, if_neg (by simpa using hhead)]
    rfl

/-- A quote in front of a text and of clauses runs on to the next quote. -/
theorem closedValue?_clausesText {clauses : List AttributeClause}
    (hvalid : ∀ clause ∈ clauses, clause.IsValid) {state : Option String}
    (hstate : ∀ name ∈ state, IsNameWord name) {u : List Char} (hu : u ≠ []) (hquote : '"' ∉ u) :
    (closedValue? ('"' :: (u ++ (clausesText clauses ++ stateText state)))).map Prod.fst =
      (spill clauses).map (u ++ ·) := by
  induction clauses generalizing u with
  | nil =>
    have hnone : '"' ∉ u ++ stateText state := by
      rw [List.mem_append, not_or]
      exact ⟨hquote, not_mem_stateText hstate (by decide) (by decide)⟩
    rw [clausesText_nil, List.nil_append, closedValue?, quotedValue?_of_not_mem hnone]
    rfl
  | cons clause rest ih =>
    rw [List.forall_mem_cons] at hvalid
    obtain ⟨name, hname, hcases⟩ := hvalid.1.exists_name
    rcases hcases with rfl | ⟨op, text, hop, -, rfl⟩
    · have hname' : '"' ∉ name.toList :=
        not_mem_of_isName (isName_of_mem_attributeName hname) (by decide)
      have htext : u ++ (clausesText (⟨name, .present, none⟩ :: rest) ++ stateText state) =
          (u ++ ('[' :: name.toList ++ [']'])) ++ (clausesText rest ++ stateText state) := by
        rw [clausesText_cons, List.append_assoc, AttributeClause.text_present_append]
        simp
      have hquote' : '"' ∉ u ++ ('[' :: name.toList ++ [']']) := by simp [hquote, hname']
      rw [htext, ih hvalid.2 (by simp) hquote', spill, Option.map_map]
      congr 1
      funext more
      rw [List.append_assoc]
      rfl
    · rw [clausesText_cons, List.append_assoc, closedValue?_text hop hname text hquote,
        spill_value hop]
      split
      · rfl
      · rfl

/-- **A row of clauses.**  The lenient reader finds the loose value of an attribute in it. -/
theorem firstValue_clausesText {attr : String} (hattr : PlainName attr)
    {clauses : List AttributeClause} (hvalid : ∀ clause ∈ clauses, clause.IsValid)
    {state : Option String} (hstate : ∀ name ∈ state, IsNameWord name) :
    firstValue attr (clausesText clauses ++ stateText state) = looseValue attr clauses := by
  induction clauses with
  | nil =>
    have hnone : firstValue attr (stateText state ++ []) = firstValue attr [] :=
      firstValue_append (bracket_not_mem_stateText hstate) []
    rw [List.append_nil] at hnone
    rw [clausesText_nil, List.nil_append, hnone]
    rfl
  | cons clause rest ih =>
    rw [List.forall_mem_cons] at hvalid
    have hspill := closedValue?_clausesText hvalid.2 hstate (List.cons_ne_nil ']' []) (by decide)
    rw [clausesText_cons, List.append_assoc, firstValue_text hattr hvalid.1, ih hvalid.2,
      looseValue]
    rw [List.singleton_append] at hspill
    rw [hspill]
    rfl

theorem opensClause_of_not_mem {attr : String} {value : List Char} (h : '[' ∉ value) :
    opensClause attr value = false := by
  induction value with
  | nil => rfl
  | cons c cs ih =>
    rw [List.mem_cons, not_or] at h
    have hc : (c == '[') = false := by simpa using Ne.symm h.1
    rw [opensClause, hc, ih h.2]
    rfl

/-! ## Segments as clauses -/

theorem isAttributeName_contextAttribute : IsAttributeName contextAttribute :=
  ⟨'d', "ata-context".toList, rfl, by decide, List.all_eq_true.1 (by decide)⟩

theorem isAttributeName_identifierAttribute : IsAttributeName identifierAttribute :=
  ⟨'d', "ata-id".toList, rfl, by decide, List.all_eq_true.1 (by decide)⟩

/-- The clause that stands for a shorthand. -/
def shorthandClause (attr : String) (name : List Char) : AttributeClause :=
  ⟨attr, .equals, some (String.ofList name)⟩

theorem toList_text_shorthandClause (attr : String) (name : List Char) :
    (shorthandClause attr name).text.toList = equalsClause attr name := by
  rw [shorthandClause, AttributeClause.toList_text_of_ne (by decide), equalsClause_eq]
  simp [ClauseOperator.token]

section
variable {attr : String} {name : List Char}

theorem isValid_shorthandClause (hattr : attr = contextAttribute ∨ attr = identifierAttribute)
    (hname : ShorthandName name) : (shorthandClause attr name).IsValid := by
  refine ⟨?_, String.ofList name, rfl, by simpa using hname.quote_not_mem⟩
  rcases hattr with rfl | rfl
  · exact isAttributeName_contextAttribute
  · exact isAttributeName_identifierAttribute

theorem valueOf?_shorthandClause (attr : String) (hname : ShorthandName name) :
    (shorthandClause attr name).valueOf? attr = some (String.ofList name) := by
  have hne : (String.ofList name != "") = true := by
    rw [bne_iff_ne, Ne, ← String.toList_inj, String.toList_ofList]
    exact hname.ne_nil
  rw [shorthandClause, AttributeClause.valueOf?, if_pos (by simp)]
  simp [Option.filter, hne]

theorem valueOf?_shorthandClause_of_ne {attr attr' : String} (h : attr ≠ attr') (name : List Char) :
    (shorthandClause attr name).valueOf? attr' = none := by
  rw [shorthandClause, AttributeClause.valueOf?, if_neg (by simp [h])]

/-- Such a clause names the context or the identifier. -/
theorem isConsumed_shorthandClause (hattr : attr = contextAttribute ∨ attr = identifierAttribute)
    (hname : ShorthandName name) : (shorthandClause attr name).isConsumed = true := by
  have hvalue := valueOf?_shorthandClause attr hname
  rcases hattr with rfl | rfl
  · rw [AttributeClause.isConsumed, hvalue]
    rfl
  · rw [AttributeClause.isConsumed, hvalue, Bool.or_comm]
    rfl

theorem bracket_not_mem_shorthandClause (attr : String) (hname : ShorthandName name) :
    '[' ∉ ((shorthandClause attr name).value.getD "").toList := by
  rw [shorthandClause, Option.getD_some, String.toList_ofList]
  exact hname.not_mem (by decide) (by decide)

theorem opensClause_shorthandClause (attr' : String) (hname : ShorthandName name) :
    opensClause attr' ((shorthandClause attr name).value.getD "").toList = false :=
  opensClause_of_not_mem (bracket_not_mem_shorthandClause attr hname)

end

theorem not_mem_word {mark : Char} {name : List Char} (h : (Segment.word mark name).IsValid)
    {c : Char} (hc : isName c = false) (hhash : c ≠ '#') (hdot : c ≠ '.') :
    c ∉ (Segment.word mark name).text := by
  rcases h.1 with rfl | rfl
  · exact not_mem_mark_cons h.2.2 hc hhash
  · exact not_mem_mark_cons h.2.2 hc hdot

theorem bracket_not_mem_word {mark : Char} {name : List Char}
    (h : (Segment.word mark name).IsValid) : '[' ∉ (Segment.word mark name).text :=
  not_mem_word h (by decide) (by decide) (by decide)

/-- **The search for a value** in segments and clauses. -/
theorem firstValue_segmentsText {attr : String} (hattr : PlainName attr)
    {segments : List Segment} (hsegments : ∀ s ∈ segments, s.IsValid)
    {clauses : List AttributeClause} (hclauses : ∀ clause ∈ clauses, clause.IsValid)
    {state : Option String} (hstate : ∀ name ∈ state, IsNameWord name) :
    firstValue attr (segmentsText segments ++ (clausesText clauses ++ stateText state)) =
      looseValue attr (segments.filterMap Segment.clause? ++ clauses) := by
  induction segments with
  | nil => exact firstValue_clausesText hattr hclauses hstate
  | cons segment rest ih =>
    rw [List.forall_mem_cons] at hsegments
    rw [segmentsText_cons, List.append_assoc]
    cases segment with
    | clause attr' name =>
      have hvalid := isValid_shorthandClause hsegments.1.1 hsegments.1.2
      rw [Segment.text, ← toList_text_shorthandClause, firstValue_text hattr hvalid,
        opensClause_shorthandClause attr hsegments.1.2, ih hsegments.2]
      show _ = looseValue attr (shorthandClause attr' name ::
        (rest.filterMap Segment.clause? ++ clauses))
      rw [looseValue, opensClause_shorthandClause attr hsegments.1.2]
      rfl
    | word mark name =>
      rw [firstValue_append (bracket_not_mem_word hsegments.1), ih hsegments.2]
      rfl

/-! ## Attribute clauses -/

theorem isSome_valueOf? (attr name : String) (op : ClauseOperator) (text : String) :
    ((AttributeClause.mk name op (some text)).valueOf? attr).isSome =
      (name == attr && op == .equals && !text.toList.isEmpty) := by
  have hempty : text.toList.isEmpty = (text == "") := by
    rw [Bool.eq_iff_iff]
    simp
  rw [AttributeClause.valueOf?, hempty]
  by_cases hcond : (name == attr && op == .equals) = true
  · rw [if_pos hcond, hcond, Bool.true_and]
    by_cases htext : text = ""
    · subst htext
      rfl
    · have hne : (text == "") = false := by simpa using htext
      simp [Option.filter, htext, hne]
  · rw [if_neg hcond]
    have hfalse : (name == attr && op == .equals) = false := by simpa using hcond
    rw [hfalse]
    rfl

/-- The clauses that the lenient reader passes over are those that name the context or the
identifier. -/
theorem isConsumed_eq_namesTarget (name : String) (op : ClauseOperator) (text : String) :
    (AttributeClause.mk name op (some text)).isConsumed = namesTarget name op true text.toList := by
  rw [AttributeClause.isConsumed, isSome_valueOf?, isSome_valueOf?, namesTarget]
  cases name == contextAttribute <;> cases name == identifierAttribute <;>
    cases op == .equals <;> cases text.toList.isEmpty <;> rfl

theorem trimStart_token {op : ClauseOperator} (h : op ≠ .present) (rest : List Char) :
    trimStart (op.token.toList ++ rest) = op.token.toList ++ rest := by
  cases op with
  | present => exact absurd rfl h
  | _ => rfl

/-- The lenient reader reads a clause of the grammar as the strict one does. -/
theorem attributeClause_text {clause : AttributeClause} (hvalid : clause.IsValid)
    (before : Option Char) (rest : List Char) :
    attributeClause before (clause.text.toList ++ rest) =
      some (if clause.isConsumed then none else some clause, rest) := by
  obtain ⟨name, hname, rfl | ⟨op, text, hop, hquote, rfl⟩⟩ := hvalid.exists_name
  · have hread := attributeName?_append hname (s := ']' :: rest) (stopsAt_cons.2 (by decide))
    have hconsumed : (AttributeClause.mk name .present none).isConsumed = false := by
      simp [AttributeClause.isConsumed, AttributeClause.valueOf?]
    rw [AttributeClause.text_present_append, hconsumed]
    simp only [attributeClause, trimStart_name hname, hread, bind, Option.bind_some]
    rfl
  · have hread := attributeName?_append hname
      (stopsAt_token hop ('"' :: (text.toList ++ '"' :: ']' :: rest)))
    have htrim : trimStart ('"' :: (text.toList ++ '"' :: ']' :: rest)) =
        '"' :: (text.toList ++ '"' :: ']' :: rest) := rfl
    have hclose : after? [']'] (trimStart (']' :: rest)) = some rest := rfl
    rw [AttributeClause.text_append hop, isConsumed_eq_namesTarget]
    simp only [attributeClause, trimStart_name hname, hread, bind, Option.bind_some,
      trimStart_token hop, operator?_token hop, htrim, quotedOrBare, quotedValue?_append hquote,
      hclose, List.head?_cons, beq_self_eq_true, String.ofList_toList]
    cases namesTarget name op true text.toList <;> rfl

theorem attributeClause_of_ne {before : Option Char} {c : Char} (h : c ≠ '[') (cs : List Char) :
    attributeClause before (c :: cs) = none := by
  unfold attributeClause
  split
  · rename_i heq
    exact absurd (List.cons.inj heq).1 h
  · rfl

theorem findAllFrom_attributeClause_append {u : List Char} (h : '[' ∉ u) (before : Option Char)
    (s : List Char) :
    findAllFrom attributeClause before (u ++ s) =
      findAllFrom attributeClause (u.getLast?.or before) s := by
  refine findAllFrom_append_of_none ?_ before s
  exact eq_none_of_not_mem (fun _ _ cs hne => attributeClause_of_ne hne cs) h

section
variable {clauses : List AttributeClause} {segments : List Segment} {state : Option String}

/-- **The search for attribute clauses** finds the clauses of the grammar, in order. -/
theorem findAllFrom_clausesText (hclauses : ∀ clause ∈ clauses, clause.IsValid)
    (hstate : ∀ name ∈ state, IsNameWord name) (before : Option Char) :
    (findAllFrom attributeClause before (clausesText clauses ++ stateText state)).filterMap id =
      clauses.filter (! ·.isConsumed) := by
  induction clauses generalizing before with
  | nil =>
    have hnone := findAllFrom_attributeClause_append (bracket_not_mem_stateText hstate) before []
    rw [List.append_nil] at hnone
    rw [clausesText_nil, List.nil_append, hnone, findAllFrom_nil]
    rfl
  | cons clause rest ih =>
    rw [List.forall_mem_cons] at hclauses
    rw [clausesText_cons, List.append_assoc, findAllFrom_found (isClause_text hclauses.1).ne_nil
      (attributeClause_text hclauses.1 before _), List.filterMap_cons, ih hclauses.2]
    cases hconsumed : clause.isConsumed with
    | true => simp [hconsumed]
    | false => simp [hconsumed]

theorem findAllFrom_segmentsText (hsegments : ∀ s ∈ segments, s.IsValid)
    (hclauses : ∀ clause ∈ clauses, clause.IsValid) (hstate : ∀ name ∈ state, IsNameWord name)
    (before : Option Char) :
    (findAllFrom attributeClause before
      (segmentsText segments ++ (clausesText clauses ++ stateText state))).filterMap id =
        clauses.filter (! ·.isConsumed) := by
  induction segments generalizing before with
  | nil => exact findAllFrom_clausesText hclauses hstate before
  | cons segment rest ih =>
    rw [List.forall_mem_cons] at hsegments
    rw [segmentsText_cons, List.append_assoc]
    cases segment with
    | clause attr name =>
      have hvalid := isValid_shorthandClause hsegments.1.1 hsegments.1.2
      rw [Segment.text, ← toList_text_shorthandClause,
        findAllFrom_found (isClause_text hvalid).ne_nil (attributeClause_text hvalid before _),
        isConsumed_shorthandClause hsegments.1.1 hsegments.1.2, List.filterMap_cons,
        ih hsegments.2]
      rfl
    | word mark name =>
      rw [findAllFrom_attributeClause_append (bracket_not_mem_word hsegments.1), ih hsegments.2]

/-! ## The state -/

theorem replaceFrom_clause_append {text : List Char → List Char} {u : List Char} (h : '[' ∉ u)
    (before : Option Char) (s : List Char) :
    replaceFrom clause text before (u ++ s) =
      u ++ replaceFrom clause text (u.getLast?.or before) s := by
  refine replaceFrom_append_of_none ?_ before s
  exact eq_none_of_not_mem (fun _ _ _ hne => clause_of_ne hne) h

/-- What is left of a segment without its clause. -/
def Segment.blanked : Segment → List Char
  | .clause _ _ => [' ']
  | .word mark name => mark :: name

theorem replaceFrom_isClause {text : List Char → List Char} {piece : List Char} (h : IsClause piece)
    (before : Option Char) (rest : List Char) :
    replaceFrom clause text before (piece ++ rest) =
      text piece ++ replaceFrom clause text (some ']') rest := by
  rw [replaceFrom_found h.ne_nil (h.clause_append before rest), h.getLast?]

/-- Each clause of a row gives way to the character that replaces it. -/
theorem replaceFrom_clausesText {mark : Char} (hclauses : ∀ clause ∈ clauses, clause.IsValid)
    (hstate : ∀ name ∈ state, IsNameWord name) (before : Option Char) :
    replaceFrom clause (fun _ => [mark]) before (clausesText clauses ++ stateText state) =
      List.replicate clauses.length mark ++ stateText state := by
  induction clauses generalizing before with
  | nil =>
    have hnone : replaceFrom clause (fun _ => [mark]) before (stateText state ++ []) =
        stateText state ++ replaceFrom clause (fun _ => [mark]) _ [] :=
      replaceFrom_clause_append (bracket_not_mem_stateText hstate) before []
    rw [List.append_nil, replaceFrom_nil, List.append_nil] at hnone
    exact hnone
  | cons clause rest ih =>
    rw [List.forall_mem_cons] at hclauses
    rw [clausesText_cons, List.append_assoc, replaceFrom_isClause (isClause_text hclauses.1),
      ih hclauses.2]
    rfl

/-- Without its clauses a row of segments has a blank for each clause. -/
theorem replaceFrom_segmentsText (hsegments : ∀ s ∈ segments, s.IsValid)
    (hclauses : ∀ clause ∈ clauses, clause.IsValid) (hstate : ∀ name ∈ state, IsNameWord name)
    (before : Option Char) :
    replaceFrom clause (fun _ => [' ']) before
        (segmentsText segments ++ (clausesText clauses ++ stateText state)) =
      segments.flatMap Segment.blanked ++
        (List.replicate clauses.length ' ' ++ stateText state) := by
  induction segments generalizing before with
  | nil => exact replaceFrom_clausesText hclauses hstate before
  | cons segment rest ih =>
    rw [List.forall_mem_cons] at hsegments
    rw [segmentsText_cons, List.append_assoc, List.flatMap_cons, List.append_assoc]
    cases segment with
    | clause attr name =>
      have hvalid := isValid_shorthandClause hsegments.1.1 hsegments.1.2
      rw [Segment.text, ← toList_text_shorthandClause, replaceFrom_isClause (isClause_text hvalid),
        ih hsegments.2]
      rfl
    | word mark name =>
      rw [replaceFrom_clause_append (bracket_not_mem_word hsegments.1), ih hsegments.2]
      rfl

theorem colon_not_mem_blanked {segment : Segment} (h : segment.IsValid) :
    ':' ∉ segment.blanked := by
  cases segment with
  | clause attr name => simp [Segment.blanked]
  | word mark name => exact not_mem_word h (by decide) (by decide) (by decide)

end

theorem stateName_of_ne {before : Option Char} {c : Char} (h : c ≠ ':') (cs : List Char) :
    stateName before (c :: cs) = none := by
  unfold stateName
  split
  · rename_i heq
    exact absurd (List.cons.inj heq).1 h
  · rfl

/-- A state is one colon or two and a name that nothing goes on. -/
theorem stateName_eq_some_iff {before : Option Char} {s name rest : List Char} :
    stateName before s = some (name, rest) ↔ NameWord name ∧ StopsAt isName rest ∧
      (s = ':' :: (name ++ rest) ∨ s = ':' :: ':' :: (name ++ rest)) := by
  constructor
  · intro h
    unfold stateName at h
    split at h
    · rename_i cs
      rw [Option.ite_none_left_eq_some] at h
      obtain ⟨hne, heq⟩ := h
      obtain ⟨rfl, rfl⟩ := Prod.mk.inj (Option.some.inj heq)
      refine ⟨⟨by simpa using hne, nameSpan_fst_isName _⟩, stopsAt_nameSpan_snd _, ?_⟩
      rw [nameSpan_append]
      cases hafter : after? [':'] cs with
      | none => exact .inl rfl
      | some behind => exact .inr (congrArg (':' :: ·) (after?_eq_some_iff.1 hafter))
    · cases h
  · rintro ⟨hname, hrest, hs⟩
    have hspan := nameSpan_append_of_stopsAt hname.2 hrest
    have hempty : name.isEmpty = false := by simpa using hname.1
    rcases hs with rfl | rfl
    · -- No name starts with a colon.
      have hone : after? [':'] (name ++ rest) = none := by
        rw [Option.eq_none_iff_forall_ne_some]
        intro behind hsome
        have hhead := hname.head_isName rest
        rw [after?_eq_some_iff.1 hsome] at hhead
        have hcolon : isName ':' = true := hhead
        exact absurd hcolon (by decide)
      simp only [stateName, hone, Option.getD_none, hspan, hempty, Bool.false_eq_true, if_false]
    · have htwo : after? [':'] (':' :: (name ++ rest)) = some (name ++ rest) :=
        after?_eq_some_iff.2 rfl
      simp only [stateName, htwo, Option.getD_some, hspan, hempty, Bool.false_eq_true, if_false]

theorem stateName_append {name : String} (h : IsNameWord name) {rest : List Char}
    (hrest : StopsAt isName rest) (before : Option Char) :
    stateName before (':' :: (name.toList ++ rest)) = some (name.toList, rest) :=
  stateName_eq_some_iff.2 ⟨isNameWord_iff.1 h, hrest, .inl rfl⟩

/-- The lenient reader finds the state at the end of a text without other colons, and no other. -/
theorem findAllFrom_stateName {u : List Char} (hu : ':' ∉ u) {state : Option String}
    (hstate : ∀ name ∈ state, IsNameWord name) (before : Option Char) :
    findAllFrom stateName before (u ++ stateText state) = (state.map String.toList).toList := by
  have hnone : ∀ before, ∀ c ∈ u, ∀ cs, stateName before (c :: cs) = none :=
    eq_none_of_not_mem (fun _ _ cs hne => stateName_of_ne hne cs) hu
  rw [findAllFrom_append_of_none hnone]
  cases state with
  | none => exact findAllFrom_nil _
  | some name =>
    have hpiece : ∀ before, stateName before (stateText (some name) ++ []) =
        some (name.toList, []) :=
      stateName_append (hstate name rfl) (stopsAt_nil isName)
    have hfound := findAllFrom_found (by simp [stateText]) (hpiece (u.getLast?.or before))
    rw [List.append_nil, findAllFrom_nil] at hfound
    exact hfound

/-- An expanded selector of the grammar without its clauses. -/
theorem blankClauses_looseText {c : Compound} (hvalid : c.IsValid) (known : List String) :
    blankClauses (c.looseText known) =
      c.tag.toList ++ ((c.looseSegments known).flatMap Segment.blanked ++
        (List.replicate c.clauses.length ' ' ++ stateText c.state)) := by
  have hbracket : '[' ∉ c.tag.toList :=
    not_mem_of_isName (isName_of_mem_tag hvalid.tag) (by decide)
  rw [blankClauses, replaceClauses, replaceAll_eq_replaceFrom, Compound.looseText,
    replaceFrom_clause_append hbracket,
    replaceFrom_segmentsText (isValid_looseSegments hvalid known) hvalid.clauses hvalid.state]

/-- Without its clauses an expanded selector of the grammar has no colon but the one of its
state. -/
theorem exists_blankClauses_looseText {c : Compound} (hvalid : c.IsValid) (known : List String) :
    ∃ u, ':' ∉ u ∧ blankClauses (c.looseText known) = u ++ stateText c.state := by
  have hcolon : ':' ∉ c.tag.toList :=
    not_mem_of_isName (isName_of_mem_tag hvalid.tag) (by decide)
  have hblanked : ':' ∉ (c.looseSegments known).flatMap Segment.blanked := by
    intro hmem
    obtain ⟨segment, hsegment, hin⟩ := List.mem_flatMap.1 hmem
    exact colon_not_mem_blanked (isValid_looseSegments hvalid known segment hsegment) hin
  have hblanks : ':' ∉ List.replicate c.clauses.length ' ' := by simp [List.mem_replicate]
  refine ⟨c.tag.toList ++ ((c.looseSegments known).flatMap Segment.blanked ++
    List.replicate c.clauses.length ' '), ?_, ?_⟩
  · simp only [List.mem_append, not_or]
    exact ⟨hcolon, hblanked, hblanks⟩
  · rw [blankClauses_looseText hvalid known]
    simp only [List.append_assoc]

/-! ## The target -/

theorem leadingTag?_tag {tag : String} (htag : IsTag tag) {s : List Char}
    (hs : StopsAt isName s) : leadingTag? (tag.toList ++ s) = some tag := by
  have hempty : tag.toList.isEmpty = false := List.isEmpty_eq_false_iff.2 htag.ne_nil
  rw [leadingTag?, takeWhile_append_of_stopsAt (isWord_of_mem_tag htag) hs.isWord]
  simp [hempty, String.ofList_toList]

/-- **The lenient target of a selector of the grammar.**  Tag, state and attribute clauses are
those of the grammar; context and identifier are the loose values of the clauses. -/
theorem lenientTarget_of_isValid {known : List String} {fallback selector : String} {c : Compound}
    (hvalid : c.IsValid) (htext : trim selector.toList = c.text.toList) :
    lenientTarget known fallback selector =
      { component := c.tag
        context := (looseValue contextAttribute (c.looseClauses known)).map String.ofList
        identifier := (looseValue identifierAttribute (c.looseClauses known)).map String.ofList
        state := c.state
        attributes := c.clauses.filter (! ·.isConsumed) } := by
  have hsegments := isValid_looseSegments hvalid known
  have hnormal : normalizeChars known selector.toList = c.looseText known :=
    normalizeChars_eq hvalid htext
  have htrim : trim (c.looseText known) = c.looseText known := by
    rw [← hnormal]
    exact trim_normalizeChars known selector.toList
  have hrow := stopsAt_segmentsText hsegments
    (endsRow_clausesText c.clauses (endsRow_stateText c.state) hvalid.clauses)
  have hbracket : '[' ∉ c.tag.toList :=
    not_mem_of_isName (isName_of_mem_tag hvalid.tag) (by decide)
  have hvalue : ∀ {attr}, PlainName attr → find? (equalsValue attr) (c.looseText known) =
      looseValue attr (c.looseClauses known) := by
    intro attr hattr
    exact (firstValue_append hbracket _).trans
      (firstValue_segmentsText hattr hsegments hvalid.clauses hvalid.state)
  have hstate : find? stateName (blankClauses (c.looseText known)) =
      c.state.map String.toList := by
    obtain ⟨u, hu, hblank⟩ := exists_blankClauses_looseText hvalid known
    rw [hblank, find?, findAll_eq_findAllFrom, findAllFrom_stateName hu hvalid.state]
    cases c.state <;> rfl
  have hattributes : (findAll attributeClause (c.looseText known)).filterMap id =
      c.clauses.filter (! ·.isConsumed) := by
    rw [findAll_eq_findAllFrom, Compound.looseText, findAllFrom_attributeClause_append hbracket]
    exact findAllFrom_segmentsText hsegments hvalid.clauses hvalid.state _
  rw [lenientTarget_eq, hnormal, targetOfChars]
  simp only [htrim, hvalue plainName_contextAttribute, hvalue plainName_identifierAttribute, hstate,
    hattributes]
  rw [Compound.looseText, leadingTag?_tag hvalid.tag hrow]
  simp [Option.map_map, Function.comp_def]

end StyleCascade

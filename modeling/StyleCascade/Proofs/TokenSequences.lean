import StyleCascade.Proofs.Lexemes

/-!
# Sequences of tokens

The tokens of the grammar, place by place: which ones may stand there, and which may follow.  A
text may be cut into tokens in several ways, but at every place the longest one decides: a shorter
one leaves characters that no token begins with.

* `Tail.selector`, `Tail.shorthands`, `Tail.clauses` and those of a clause — the rows of tokens that
  may stand at a place, up to the end of a selector; each has an equation for its first token.
* `Spans`, `Spans.munch` — a span is longer than every other token of its kind.
-/

namespace StyleCascade

open StyleCascade.Text StyleCascade.Selector

/-! ## Tokens -/

/-- The text of tokens one behind the other. -/
def tokensText (tokens : List String) : List Char := tokens.flatMap String.toList

@[simp] theorem tokensText_nil : tokensText [] = [] := rfl

@[simp] theorem tokensText_cons (token : String) (tokens : List String) :
    tokensText (token :: tokens) = token.toList ++ tokensText tokens :=
  List.flatMap_cons

theorem tokensText_dropLast_append (tokens : List String) :
    tokensText tokens.dropLast ++ (tokens.getLastD "").toList = tokensText tokens := by
  rcases tokens.eq_nil_or_concat with rfl | ⟨front, token, rfl⟩
  · rfl
  · simp [tokensText]

/-- The tokens of a state, if there is one. -/
def stateTokens : Option String → List String
  | some name => [":", name]
  | none => []

theorem Compound.tokens_eq (c : Compound) :
    c.tokens = c.tag :: (c.shorthands.map Shorthand.text ++
      (c.clauses.flatMap AttributeClause.tokens ++ stateTokens c.state)) := by
  rw [Compound.tokens]
  cases c.state <;> simp [stateTokens]

/-- A value as it is written, in double quotes. -/
def quotedToken (value : String) : String := "\"" ++ value ++ "\""

theorem toList_quotedToken (value : String) :
    (quotedToken value).toList = '"' :: (value.toList ++ ['"']) := by
  simp [quotedToken]

theorem AttributeClause.tokens_of_ne {op : ClauseOperator} (h : op ≠ .present)
    (name value : String) :
    (AttributeClause.mk name op (some value)).tokens =
      ["[", name, op.token, quotedToken value, "]"] := by
  cases op with
  | present => exact absurd rfl h
  | _ => rfl

/-! ## Rows of tokens -/

namespace Tail

/-- The tokens of clauses and a state. -/
def clauses (w : List String) : Prop :=
  ∃ (items : List AttributeClause) (state : Option String),
    (∀ item ∈ items, item.IsValid) ∧ (∀ name ∈ state, IsNameWord name) ∧
      w = items.flatMap AttributeClause.tokens ++ stateTokens state

/-- The tokens behind the colon of a state. -/
def word (w : List String) : Prop := ∃ name, IsNameWord name ∧ w = [name]

/-- The tokens behind the value of a clause. -/
def close (w : List String) : Prop := ∃ w', clauses w' ∧ w = "]" :: w'

/-- The tokens behind the operator of a clause. -/
def value (w : List String) : Prop :=
  ∃ (text : String) (w' : List String), '"' ∉ text.toList ∧ close w' ∧ w = quotedToken text :: w'

/-- The tokens behind the name of a clause. -/
def test (w : List String) : Prop :=
  close w ∨ ∃ (op : ClauseOperator) (w' : List String), op ≠ .present ∧ value w' ∧
    w = op.token :: w'

/-- The tokens behind the opening bracket of a clause. -/
def name (w : List String) : Prop :=
  ∃ (attr : String) (w' : List String), IsAttributeName attr ∧ test w' ∧ w = attr :: w'

/-- The tokens behind the tag, or behind the shorthand `last`. -/
def shorthands (last : Option Shorthand) (w : List String) : Prop :=
  ∃ (items : List Shorthand) (w' : List String), (∀ item ∈ items, item.IsValid) ∧
    Separated (last.toList ++ items) ∧ clauses w' ∧ w = items.map Shorthand.text ++ w'

/-- The tokens of a selector. -/
def selector (w : List String) : Prop := ∃ c : Compound, c.IsValid ∧ w = c.tokens

/-! ## First tokens -/

theorem clauses_nil : clauses [] := ⟨[], none, by simp, by simp, rfl⟩

theorem clauses_cons_iff {token : String} {w : List String} :
    clauses (token :: w) ↔ (token = "[" ∧ name w) ∨ (token = ":" ∧ word w) := by
  constructor
  · rintro ⟨items, state, hitems, hstate, heq⟩
    cases items with
    | nil =>
      cases state with
      | none => cases heq
      | some name =>
        obtain ⟨rfl, rfl⟩ := List.cons.inj heq
        exact .inr ⟨rfl, name, hstate name rfl, rfl⟩
    | cons item rest =>
      rw [List.forall_mem_cons] at hitems
      have hrest : clauses (rest.flatMap AttributeClause.tokens ++ stateTokens state) :=
        ⟨rest, state, hitems.2, hstate, rfl⟩
      obtain ⟨attr, hattr, rfl | ⟨op, text, hop, hquote, rfl⟩⟩ := hitems.1.exists_name
      · obtain ⟨rfl, rfl⟩ := List.cons.inj heq
        exact .inl ⟨rfl, attr, _, hattr, .inl ⟨_, hrest, rfl⟩, rfl⟩
      · rw [List.flatMap_cons, AttributeClause.tokens_of_ne hop] at heq
        obtain ⟨rfl, rfl⟩ := List.cons.inj heq
        refine .inl ⟨rfl, attr, _, hattr, .inr ⟨op, _, hop, ?_, rfl⟩, rfl⟩
        exact ⟨text, _, hquote, ⟨_, hrest, rfl⟩, rfl⟩
  · rintro (⟨rfl, attr, _, hattr, htest, rfl⟩ | ⟨rfl, name, hname, rfl⟩)
    · rcases htest with ⟨_, ⟨items, state, hitems, hstate, rfl⟩, rfl⟩ |
        ⟨op, _, hop, ⟨text, _, hquote, ⟨_, ⟨items, state, hitems, hstate, rfl⟩, rfl⟩, rfl⟩, rfl⟩
      · have hvalid : (AttributeClause.mk attr .present none).IsValid := ⟨hattr, rfl⟩
        exact ⟨_ :: items, state, List.forall_mem_cons.2 ⟨hvalid, hitems⟩, hstate, rfl⟩
      · have hvalid : (AttributeClause.mk attr op (some text)).IsValid := by
          refine ⟨hattr, ?_⟩
          cases op with
          | present => exact absurd rfl hop
          | _ => exact ⟨text, rfl, hquote⟩
        refine ⟨⟨attr, op, some text⟩ :: items, state, List.forall_mem_cons.2 ⟨hvalid, hitems⟩,
          hstate, ?_⟩
        rw [List.flatMap_cons, AttributeClause.tokens_of_ne hop]
        rfl
    · exact ⟨[], some name, by simp, by simpa using hname, rfl⟩

theorem word_cons_iff {token : String} {w : List String} :
    word (token :: w) ↔ IsNameWord token ∧ w = [] := by
  simp [word, and_assoc, and_comm]

theorem close_cons_iff {token : String} {w : List String} :
    close (token :: w) ↔ token = "]" ∧ clauses w := by
  simp [close, and_assoc, and_comm]

theorem value_cons_iff {token : String} {w : List String} :
    value (token :: w) ↔
      ∃ text : String, token = quotedToken text ∧ '"' ∉ text.toList ∧ close w := by
  simp [value, and_assoc, and_left_comm, and_comm]

theorem test_cons_iff {token : String} {w : List String} :
    test (token :: w) ↔ (token = "]" ∧ clauses w) ∨
      ∃ op : ClauseOperator, token = op.token ∧ op ≠ .present ∧ value w := by
  simp [test, close_cons_iff, and_assoc, and_left_comm, and_comm]

theorem name_cons_iff {token : String} {w : List String} :
    name (token :: w) ↔ IsAttributeName token ∧ test w := by
  simp [name, and_assoc, and_left_comm, and_comm]

theorem shorthands_of_clauses {last : Option Shorthand} {w : List String} (h : clauses w) :
    shorthands last w := by
  refine ⟨[], w, by simp, ?_, h, rfl⟩
  cases last <;> trivial

theorem separated_toList_append {last : Option Shorthand} {item : Shorthand}
    {rest : List Shorthand} :
    Separated (last.toList ++ item :: rest) ↔
      (∀ a ∈ last, a.MayPrecede item) ∧ Separated ((some item).toList ++ rest) := by
  cases last with
  | none => simp
  | some a => simp [Separated]

theorem shorthands_cons_iff {last : Option Shorthand} {token : String} {w : List String} :
    shorthands last (token :: w) ↔
      (∃ item : Shorthand, token = item.text ∧ item.IsValid ∧
        (∀ a ∈ last, a.MayPrecede item) ∧ shorthands (some item) w) ∨ clauses (token :: w) := by
  constructor
  · rintro ⟨items, w', hitems, hsep, hclauses, heq⟩
    cases items with
    | nil => exact .inr (by rwa [heq])
    | cons item rest =>
      rw [List.forall_mem_cons] at hitems
      obtain ⟨hlast, hrest⟩ := separated_toList_append.1 hsep
      obtain ⟨rfl, rfl⟩ := List.cons.inj heq
      exact .inl ⟨item, rfl, hitems.1, hlast, rest, w', hitems.2, hrest, hclauses, rfl⟩
  · rintro (⟨item, rfl, hitem, hlast, rest, w', hrest, hsep, hclauses, rfl⟩ | hclauses)
    · exact ⟨item :: rest, w', List.forall_mem_cons.2 ⟨hitem, hrest⟩,
        separated_toList_append.2 ⟨hlast, hsep⟩, hclauses, rfl⟩
    · exact shorthands_of_clauses hclauses

theorem selector_cons_iff {token : String} {w : List String} :
    selector (token :: w) ↔ IsTag token ∧ shorthands none w := by
  constructor
  · rintro ⟨c, hc, heq⟩
    rw [Compound.tokens_eq] at heq
    obtain ⟨rfl, rfl⟩ := List.cons.inj heq
    exact ⟨hc.tag, c.shorthands, _, hc.shorthands, hc.separated,
      ⟨c.clauses, c.state, hc.clauses, hc.state, rfl⟩, rfl⟩
  · rintro ⟨htag, items, _, hitems, hsep, ⟨clauses, state, hclauses, hstate, rfl⟩, rfl⟩
    refine ⟨⟨token, items, clauses, state⟩, ⟨htag, hitems, hsep, hclauses, hstate⟩, ?_⟩
    rw [Compound.tokens_eq]

/-! ## Rows that there are -/

theorem exists_close : ∃ w, close w := ⟨["]"], [], clauses_nil, rfl⟩

theorem exists_value : ∃ w, value w := by
  obtain ⟨w, hw⟩ := exists_close
  exact ⟨_, "", w, by simp, hw, rfl⟩

theorem exists_test : ∃ w, test w := by
  obtain ⟨w, hw⟩ := exists_close
  exact ⟨w, .inl hw⟩

theorem exists_name : ∃ w, name w := by
  obtain ⟨w, hw⟩ := exists_test
  exact ⟨_, "a", w, ⟨'a', [], rfl, by decide, by simp⟩, hw, rfl⟩

theorem exists_word : ∃ w, word w := by
  refine ⟨_, "a", ⟨by simp, ?_⟩, rfl⟩
  intro c hc
  obtain rfl : c = 'a' := by simpa using hc
  rfl

theorem exists_selector : ∃ w, selector w :=
  ⟨["a"], selector_cons_iff.2 ⟨⟨'a', [], rfl, by decide, by simp⟩,
    shorthands_of_clauses clauses_nil⟩⟩

/-! ## First characters -/

/-- Behind the name of a clause stands no token that would continue it. -/
theorem stopsAt_test {token : String} {w : List String} (h : test (token :: w))
    (s : List Char) : StopsAt isName (token.toList ++ s) := by
  rcases test_cons_iff.1 h with ⟨rfl, _⟩ | ⟨op, rfl, hop, _⟩
  · exact stopsAt_cons.2 (by decide)
  · exact stopsAt_token hop s

/-- The tokens behind a shorthand begin with a mark. -/
theorem exists_mark {last : Option Shorthand} {token : String} {w : List String}
    (h : shorthands last (token :: w)) :
    ∃ mark cs, token.toList = mark :: cs ∧ isName mark = false ∧
      (mark = '.' → ∀ a ∈ last, ∃ name, a.MayPrecede (.context name)) := by
  rcases shorthands_cons_iff.1 h with ⟨item, rfl, _, hlast, _⟩ | hclauses
  · cases item with
    | context name =>
      refine ⟨'.', name.toList, toList_text_context name, by decide, ?_⟩
      exact fun _ a ha => ⟨name, hlast a ha⟩
    | identifier name =>
      exact ⟨'#', name.toList, toList_text_identifier name, by decide, fun h => by cases h⟩
  · rcases clauses_cons_iff.1 hclauses with ⟨rfl, _⟩ | ⟨rfl, _⟩
    · exact ⟨'[', [], rfl, by decide, fun h => by cases h⟩
    · exact ⟨':', [], rfl, by decide, fun h => by cases h⟩

/-- Behind a shorthand stands no token that would continue it. -/
theorem shorthandEnds_shorthands {item : Shorthand} {token : String} {w : List String}
    (h : shorthands (some item) (token :: w)) (s : List Char) :
    ShorthandEnds item (token.toList ++ s) := by
  obtain ⟨mark, cs, heq, hmark, hdot⟩ := exists_mark h
  rw [heq, List.cons_append]
  cases item with
  | context name => exact stopsAt_cons.2 hmark
  | identifier name =>
    refine endsDotted_of_ne hmark ?_ _
    intro hmark'
    obtain ⟨_, hprecede⟩ := hdot hmark' _ rfl
    exact hprecede

end Tail

/-! ## Spans -/

/-- A span reads the longest word of a kind at the head of a text: it reads through every word of
the kind in front of a text. -/
structure Spans (span : List Char → List Char × List Char) (word : List Char → Prop) : Prop where
  append : ∀ s, (span s).1 ++ (span s).2 = s
  through : ∀ w, word w → ∀ s, span (w ++ s) = (w ++ (span s).1, (span s).2)

theorem spans_takeWhile (p : Char → Bool) :
    Spans (fun s => (s.takeWhile p, s.dropWhile p)) (fun w => ∀ c ∈ w, p c = true) where
  append _ := List.takeWhile_append_dropWhile
  through w hw s := by rw [List.takeWhile_append_of_pos hw, List.dropWhile_append_of_pos hw]

theorem span_of_stopsAt {p : Char → Bool} {s : List Char} (h : StopsAt p s) :
    (s.takeWhile p, s.dropWhile p) = ([], s) := by
  rw [takeWhile_of_stopsAt h, dropWhile_of_stopsAt h]

theorem spans_dottedSpan : Spans dottedSpan fun w => ∃ words, (∀ x ∈ words, NameWord x) ∧
    w = dotted words where
  append := dottedSpan_append
  through := by
    rintro w ⟨words, hwords, rfl⟩ s
    exact dottedSpan_through hwords s

/-- **The longest word counts.**  A text begins with a word that its span ends at.  Another word at
its head, in front of tokens of which none continues the word, is the same one, or it is shorter
and nothing stands behind it. -/
theorem Spans.munch {span : List Char → List Char × List Char} {word : List Char → Prop}
    (h : Spans span word) {x y rest behind : List Char} {tokens : List String} (hx : word x)
    (hy : word y) (hrest : span rest = ([], rest))
    (hnext : ∀ token more, tokens = token :: more →
      ∀ s, span (token.toList ++ s) = ([], token.toList ++ s))
    (heq : x ++ rest = y ++ (tokensText tokens ++ behind)) :
    y = x ∨ rest.length < behind.length := by
  have hspan := congrArg span heq
  rw [h.through x hx, h.through y hy, hrest] at hspan
  obtain ⟨hword, hbehind⟩ := Prod.mk.inj hspan
  cases tokens with
  | cons token more =>
    rw [tokensText_cons, List.append_assoc, hnext token more rfl] at hword
    exact .inl (by simpa using hword.symm)
  | nil =>
    have hlength := congrArg List.length (h.append behind)
    simp only [tokensText_nil, List.nil_append, List.append_nil] at hword hbehind
    rw [List.length_append, ← hbehind] at hlength
    cases hover : (span behind).1 with
    | nil => exact .inl (by rw [hword, hover, List.append_nil])
    | cons c cs =>
      right
      rw [hover, List.length_cons] at hlength
      omega

end StyleCascade

import StyleCascade.Proofs.LongestReadings
import StyleCascade.Proofs.StrictGrammar

/-!
# The place that a strict reading blames

The strict reader never goes back, and still the place that it blames is the end of the longest
beginning of the text that begins a selector of the grammar.  At each place either no token fits
and the reader stops, or one token decides and the reader reads it.

* `BlamedBy` — what is to blame for a reading and for the text behind it.
* `blames_of_readTest`, `blames_of_readClause`, `blames_of_readState`, `blames_of_readShorthand` —
  the readers of one part, from the end of a selector to its start.
* `blames_of_readCompound` — the reader of a whole selector.
-/

namespace StyleCascade

open StyleCascade.Text StyleCascade.Selector

variable {last : String} {s blamed : List Char}

/-! ## Readers -/

/-- What is to blame for a reading: the place where it stops, or what is to blame behind it. -/
def BlamedBy {α : Type} (read : Reading α) (next : α → List Char → Prop) (blamed : List Char) :
    Prop :=
  read = .error blamed ∨ ∃ item rest, read = .ok (item, rest) ∧ next item rest

@[simp] theorem blamedBy_error {α : Type} {next : α → List Char → Prop} {place : List Char} :
    BlamedBy (.error place) next blamed ↔ place = blamed := by
  simp [BlamedBy]

@[simp] theorem blamedBy_ok {α : Type} {next : α → List Char → Prop} {item : α}
    {rest : List Char} : BlamedBy (.ok (item, rest)) next blamed ↔ next item rest := by
  simp [BlamedBy, and_assoc]

theorem blamedBy_map {α β : Type} {f : α → β} {read : Reading α} {next : List Char → Prop} :
    BlamedBy (read.map fun (item, rest) => (f item, rest)) (fun _ => next) blamed ↔
      BlamedBy read (fun _ => next) blamed := by
  cases read with
  | error place => simp [Except.map]
  | ok found =>
    obtain ⟨item, rest⟩ := found
    simp [Except.map]

theorem blamedBy_of_bind {α β : Type} {read : Except (List Char) (α × List Char)}
    {f : α × List Char → Except (List Char) β} (h : read >>= f = .error blamed) :
    BlamedBy read (fun item rest => f (item, rest) = .error blamed) blamed := by
  cases read with
  | error place =>
    rw [blamedBy_error]
    exact Except.error.inj h
  | ok found =>
    rw [blamedBy_ok]
    exact h

theorem BlamedBy.imp {α : Type} {read : Reading α} {next next' : α → List Char → Prop}
    (h : BlamedBy read next blamed) (himp : ∀ item rest, next item rest → next' item rest) :
    BlamedBy read next' blamed := by
  rcases h with h | ⟨item, rest, hread, hnext⟩
  · exact .inl h
  · exact .inr ⟨item, rest, hread, himp item rest hnext⟩

/-! ### The test of a clause -/

theorem exists_operator?_of_prefix {op : ClauseOperator} (hop : op ≠ .present)
    (h : op.token.toList <+: s) : ∃ rest, operator? s = some (op, rest) := by
  obtain ⟨rest, rfl⟩ := h
  exact ⟨rest, operator?_token hop rest⟩

theorem exists_quotedValue?_of_prefix {text : String} (hquote : '"' ∉ text.toList)
    (h : (quotedToken text).toList <+: s) : ∃ rest, quotedValue? s = some (text.toList, rest) := by
  obtain ⟨rest, rfl⟩ := h
  refine ⟨rest, ?_⟩
  rw [toList_quotedToken, List.cons_append, List.append_assoc]
  exact quotedValue?_append hquote rest

theorem blames_close (h : ∀ rest, s ≠ ']' :: rest) :
    Blames Tail.close last s (blamedAt last s) := by
  refine .here Tail.exists_close ?_
  rintro y w hrow ⟨rest, hfits⟩
  obtain ⟨rfl, _⟩ := Tail.close_cons_iff.1 hrow
  exact h rest hfits.symm

theorem blames_value (h : quotedValue? s = none) : Blames Tail.value last s (blamedAt last s) := by
  refine .here Tail.exists_value ?_
  intro y w hrow hfits
  obtain ⟨text, rfl, hquote, _⟩ := Tail.value_cons_iff.1 hrow
  obtain ⟨_, hfound⟩ := exists_quotedValue?_of_prefix hquote hfits
  rw [h] at hfound
  cases hfound

theorem blames_test (hclose : ∀ rest, s ≠ ']' :: rest) (hsign : operator? s = none) :
    Blames Tail.test last s (blamedAt last s) := by
  refine .here Tail.exists_test ?_
  intro y w hrow hfits
  rcases Tail.test_cons_iff.1 hrow with ⟨rfl, _⟩ | ⟨op, rfl, hop, _⟩
  · obtain ⟨rest, hfits⟩ := hfits
    exact hclose rest hfits.symm
  · obtain ⟨_, hfound⟩ := exists_operator?_of_prefix hop hfits
    rw [hsign] at hfound
    cases hfound

/-- Behind a value the bracket decides. -/
theorem decides_close (rest : List Char) : Decides Tail.close Tail.clauses "]" rest := by
  refine .of_unique (by simp) (fun w hw => Tail.close_cons_iff.2 ⟨rfl, hw⟩) ?_
  intro y w hrow _
  exact Tail.close_cons_iff.1 hrow

/-- Behind an operator the value decides. -/
theorem decides_value {text : String} (hquote : '"' ∉ text.toList) (rest : List Char) :
    Decides Tail.value Tail.close (quotedToken text) rest := by
  refine .of_unique (by simp [toList_quotedToken])
    (fun w hw => Tail.value_cons_iff.2 ⟨text, rfl, hquote, hw⟩) ?_
  intro y w hrow hfits
  obtain ⟨text', rfl, hquote', hw⟩ := Tail.value_cons_iff.1 hrow
  obtain ⟨_, hvalue⟩ := exists_quotedValue?_of_prefix hquote ⟨rest, rfl⟩
  obtain ⟨_, hvalue'⟩ := exists_quotedValue?_of_prefix hquote' hfits
  rw [hvalue] at hvalue'
  have htext := (Prod.mk.inj (Option.some.inj hvalue')).1
  rw [String.toList_inj] at htext
  exact ⟨by rw [htext], hw⟩

theorem blames_value_of_close {text rest : List Char} (hquote : '"' ∉ text)
    (h : Blames Tail.close (quotedToken (String.ofList text)) rest blamed) :
    Blames Tail.value last ('"' :: (text ++ '"' :: rest)) blamed := by
  have hvalue : Blames Tail.value last _ blamed :=
    h.cons (decides_value (by rwa [String.toList_ofList]) rest)
  rwa [toList_quotedToken, String.toList_ofList, List.cons_append, List.append_assoc] at hvalue

/-- Behind the name of a clause the bracket decides. -/
theorem decides_test_bracket (rest : List Char) : Decides Tail.test Tail.clauses "]" rest := by
  refine .of_unique (by simp) (fun w hw => Tail.test_cons_iff.2 (.inl ⟨rfl, hw⟩)) ?_
  intro y w hrow hfits
  rcases Tail.test_cons_iff.1 hrow with hclose | ⟨op, rfl, hop, _⟩
  · exact hclose
  · obtain ⟨_, hsign⟩ := exists_operator?_of_prefix hop hfits
    cases hsign

/-- Behind the name of a clause the operator decides. -/
theorem decides_test_operator {op : ClauseOperator} (hop : op ≠ .present) (rest : List Char) :
    Decides Tail.test Tail.value op.token rest := by
  have hsign := operator?_token hop rest
  refine .of_unique ?_ (fun w hw => Tail.test_cons_iff.2 (.inr ⟨op, rfl, hop, hw⟩)) ?_
  · intro hnil
    obtain ⟨_, hfound⟩ := exists_operator?_of_prefix hop (s := []) (by simp [hnil])
    cases hfound
  · intro y w hrow hfits
    rcases Tail.test_cons_iff.1 hrow with ⟨rfl, _⟩ | ⟨op', rfl, hop', hw⟩
    · obtain ⟨behind, hbehind⟩ := hfits
      rw [← hbehind] at hsign
      cases hsign
    · obtain ⟨_, hsign'⟩ := exists_operator?_of_prefix hop' hfits
      rw [hsign] at hsign'
      cases hsign'
      exact ⟨rfl, hw⟩

/-- The reader stops behind the name of a clause where the tokens of a test do. -/
theorem blames_of_readTest {attr : String}
    (h : BlamedBy (readTest (attr.toList ++ s) s) (fun _ => (Blames Tail.clauses "]" · blamed))
      blamed) : Blames Tail.test attr s blamed := by
  unfold readTest at h
  split at h
  · rw [blamedBy_error, List.append_nil] at h
    subst h
    exact blames_test (by simp) rfl
  · rw [blamedBy_ok] at h
    exact .cons (decides_test_bracket _) h
  rename_i hne hclose
  split at h
  · rename_i hsign
    rw [blamedBy_error] at h
    subst h
    exact (blames_test hclose hsign).of_ne_nil hne
  · rename_i op hsign
    obtain ⟨rfl, hop⟩ := operator?_ok hsign
    rw [blamedBy_error, List.append_nil] at h
    subst h
    exact .cons (decides_test_operator hop []) (blames_value rfl)
  · rename_i op value hvalue hsign
    obtain ⟨rfl, hop⟩ := operator?_ok hsign
    apply Blames.cons (decides_test_operator hop value)
    split at h
    · rename_i hquoted
      rw [blamedBy_error] at h
      subst h
      exact (blames_value hquoted).of_ne_nil hvalue
    · rename_i text hquoted
      obtain ⟨rfl, hquote⟩ := quotedValue?_ok hquoted
      rw [blamedBy_error] at h
      subst h
      have hend : Blames Tail.close (quotedToken (String.ofList text)) [] _ :=
        blames_close (by simp)
      have hplace : Blames Tail.value op.token _ _ := blames_value_of_close hquote hend
      rwa [blamedAt, toList_quotedToken, String.toList_ofList] at hplace
    · rename_i text rest hquoted
      obtain ⟨rfl, hquote⟩ := quotedValue?_ok hquoted
      rw [blamedBy_ok] at h
      exact blames_value_of_close hquote (.cons (decides_close rest) h)
    · rename_i text rest hrest hopen hquoted
      obtain ⟨rfl, hquote⟩ := quotedValue?_ok hquoted
      rw [blamedBy_error] at h
      subst h
      exact blames_value_of_close hquote ((blames_close hopen).of_ne_nil hrest)

/-! ### Clauses and the state -/

theorem readClause_bracket_ne_none (cs : List Char) : readClause ('[' :: cs) ≠ none := by
  intro h
  unfold readClause at h
  split at h
  · cases h
  · split at h
    · cases h
    · split at h <;> cases h
  · rename_i hbracket
    exact hbracket _ rfl

theorem blames_name (h : attributeName? s = none) : Blames Tail.name last s (blamedAt last s) := by
  refine .here Tail.exists_name ?_
  rintro y w hrow ⟨rest, rfl⟩
  obtain ⟨⟨c, cs, hchars, hc, _⟩, _⟩ := Tail.name_cons_iff.1 hrow
  rw [hchars, List.cons_append, attributeName?, if_pos hc] at h
  cases h

theorem blames_word (h : (nameSpan s).1 = []) : Blames Tail.word last s (blamedAt last s) := by
  refine .here Tail.exists_word ?_
  rintro y w hrow ⟨rest, rfl⟩
  obtain ⟨hname, _⟩ := Tail.word_cons_iff.1 hrow
  have hspan := congrArg Prod.fst ((spans_takeWhile isName).through y.toList hname.2 rest)
  rw [show (nameSpan _).1 = _ from hspan, List.append_eq_nil_iff] at h
  exact hname.1 h.1

theorem blames_clauses (hclause : readClause s = none) (hcolon : ∀ cs, s ≠ ':' :: cs) :
    Blames Tail.clauses last s (blamedAt last s) := by
  refine .here ⟨[], Tail.clauses_nil⟩ ?_
  rintro y w hrow ⟨rest, rfl⟩
  rcases Tail.clauses_cons_iff.1 hrow with ⟨rfl, _⟩ | ⟨rfl, _⟩
  · exact readClause_bracket_ne_none rest hclause
  · exact hcolon rest rfl

/-- No token stands where the row has ended. -/
theorem blames_end : Blames (· = []) last s (blamedAt last s) := by
  refine .here ⟨[], rfl⟩ ?_
  rintro y w ⟨⟩

/-- A bracket decides where clauses may stand. -/
theorem decides_bracket (rest : List Char) : Decides Tail.clauses Tail.name "[" rest := by
  refine .of_unique (by simp) (fun w hw => Tail.clauses_cons_iff.2 (.inl ⟨rfl, hw⟩)) ?_
  intro y w hrow hfits
  rcases Tail.clauses_cons_iff.1 hrow with hname | ⟨rfl, _⟩
  · exact hname
  · obtain ⟨_, heq⟩ := hfits
    cases heq

/-- A colon decides where clauses may stand. -/
theorem decides_colon (rest : List Char) : Decides Tail.clauses Tail.word ":" rest := by
  refine .of_unique (by simp) (fun w hw => Tail.clauses_cons_iff.2 (.inr ⟨rfl, hw⟩)) ?_
  intro y w hrow hfits
  rcases Tail.clauses_cons_iff.1 hrow with ⟨rfl, _⟩ | hword
  · obtain ⟨_, heq⟩ := hfits
    cases heq
  · exact hword

/-- Behind a bracket the longest name decides. -/
theorem decides_name {name : String} (hname : IsAttributeName name) {rest : List Char}
    (hrest : StopsAt isName rest) : Decides Tail.name Tail.test name rest := by
  refine (spans_takeWhile isName).decides [] rfl (isName_of_mem_attributeName hname) ?_
    (span_of_stopsAt hrest)
    (fun w hw => Tail.name_cons_iff.2 ⟨hname, hw⟩) ?_
  · obtain ⟨c, cs, heq, _⟩ := hname
    simp [heq]
  · intro y w hrow _
    obtain ⟨hattr, htest⟩ := Tail.name_cons_iff.1 hrow
    refine ⟨_, rfl, isName_of_mem_attributeName hattr, fun _ => htest, ?_⟩
    rintro token more rfl t
    exact span_of_stopsAt (Tail.stopsAt_test htest t)

/-- Behind a colon the longest word decides, and nothing follows it. -/
theorem decides_word {name : String} (hname : IsNameWord name) {rest : List Char}
    (hrest : StopsAt isName rest) : Decides Tail.word (· = []) name rest := by
  refine (spans_takeWhile isName).decides [] rfl hname.2 hname.1 (span_of_stopsAt hrest)
    (fun w hw => Tail.word_cons_iff.2 ⟨hname, hw⟩) ?_
  intro y w hrow _
  obtain ⟨hname', rfl⟩ := Tail.word_cons_iff.1 hrow
  exact ⟨_, rfl, hname'.2, fun _ => rfl, by rintro token more ⟨⟩⟩

/-- The reader stops at a clause where the tokens of clauses do. -/
theorem blames_of_readClause {read : Reading AttributeClause} (hread : readClause s = some read)
    (h : BlamedBy read (fun _ => (Blames Tail.clauses "]" · blamed)) blamed) :
    Blames Tail.clauses last s blamed := by
  unfold readClause at hread
  split at hread
  · cases hread
    rw [blamedBy_error] at h
    subst h
    exact .cons (decides_bracket []) (blames_name rfl)
  · rename_i cs hne
    apply Blames.cons (decides_bracket cs)
    split at hread
    · rename_i hname
      cases hread
      rw [blamedBy_error] at h
      subst h
      exact (blames_name hname).of_ne_nil hne
    · rename_i name rest hname
      obtain ⟨rfl, hvalid, hrest⟩ := attributeName?_ok hname
      apply Blames.cons (decides_name hvalid hrest)
      apply blames_of_readTest
      split at hread
      · rename_i htest
        cases hread
        rw [blamedBy_error] at h
        rw [htest, blamedBy_error]
        exact h
      · rename_i htest
        cases hread
        rw [blamedBy_ok] at h
        rw [htest, blamedBy_ok]
        exact h
  · cases hread

/-- The reader stops at a state where the tokens of a state do. -/
theorem blames_of_readState (hclause : readClause s = none) (h : readState s = .error blamed) :
    Blames Tail.clauses last s blamed := by
  unfold readState at h
  split at h
  · cases h
  · cases h
    exact .cons (decides_colon []) (blames_word rfl)
  · rename_i cs hne
    apply Blames.cons (decides_colon cs)
    split at h
    · rename_i hspan
      cases h
      exact (blames_word (congrArg Prod.fst hspan)).of_ne_nil hne
    · cases h
    · rename_i name rest hname hrest hspan
      cases h
      have hstops := stopsAt_nameSpan_snd cs
      obtain ⟨rfl, hall⟩ := eq_append_of_nameSpan hspan
      rw [hspan] at hstops
      have hword : IsNameWord (String.ofList name) := isNameWord_ofList.2 ⟨hname, hall⟩
      have hplace : Blames Tail.word ":" _ _ :=
        (blames_end.of_ne_nil hrest).cons (decides_word hword hstops)
      rwa [String.toList_ofList] at hplace
  · rename_i hempty _ hcolon
    cases h
    exact (blames_clauses hclause hcolon).of_ne_nil hempty

/-- The reader stops at clauses and a state where their tokens do. -/
theorem blames_of_readClauses {last : String} {s : List Char}
    (h : BlamedBy (readClauses s) (fun _ => (readState · = .error blamed)) blamed) :
    Blames Tail.clauses last s blamed := by
  rw [readClauses_eq] at h
  split at h
  · rename_i hclause
    rw [blamedBy_ok] at h
    exact blames_of_readState hclause h
  · rename_i hclause
    rw [blamedBy_error] at h
    exact blames_of_readClause hclause (blamedBy_error.2 h)
  · rename_i item behind hclause
    have hlt := length_lt_of_readClause hclause
    apply blames_of_readClause hclause
    rw [blamedBy_ok]
    apply blames_of_readClauses
    rwa [blamedBy_map] at h
termination_by s.length

/-! ### Shorthands -/

theorem exists_readShorthand_of_prefix {item : Shorthand} (hitem : item.IsValid)
    (h : item.text.toList <+: s) : ∃ found, readShorthand s = some (.ok found) := by
  obtain ⟨rest, rfl⟩ := h
  cases item with
  | context name =>
    have hempty : (nameSpan (name.toList ++ rest)).1.isEmpty = false := by
      have hspan := congrArg Prod.fst ((spans_takeWhile isName).through name.toList hitem.2 rest)
      rw [show (nameSpan _).1 = _ from hspan, List.isEmpty_eq_false_iff]
      simp [hitem.1]
    rw [toList_text_context, List.cons_append, readShorthand]
    simp only [hempty]
    exact ⟨_, rfl⟩
  | identifier name =>
    obtain ⟨words, hne, hwords, heq⟩ := isValid_identifier_iff.1 hitem
    have hhead := head_isName_dotted hne hwords rest
    rw [toList_text_identifier, List.cons_append, readShorthand, heq]
    simp only [hhead]
    exact ⟨_, rfl⟩

/-- A shorthand is blamed at its mark. -/
theorem eq_of_readShorthand_error (h : readShorthand s = some (.error blamed)) :
    blamed = s ∧ s ≠ [] := by
  unfold readShorthand at h
  split at h
  · simp only at h
    split at h
    · cases h
      exact ⟨rfl, by simp⟩
    · cases h
  · simp only at h
    split at h
    · cases h
    · cases h
      exact ⟨rfl, by simp⟩
  · cases h

theorem blames_shorthand {place : List Char} (h : readShorthand s = some (.error place))
    {prev : Option Shorthand} : Blames (Tail.shorthands prev) last s (blamedAt last s) := by
  refine .here ⟨[], Tail.shorthands_of_clauses Tail.clauses_nil⟩ ?_
  intro y w hrow hfits
  rcases Tail.shorthands_cons_iff.1 hrow with ⟨item, rfl, hitem, _⟩ | hclauses
  · obtain ⟨_, hfound⟩ := exists_readShorthand_of_prefix hitem hfits
    rw [h] at hfound
    cases hfound
  · obtain ⟨rest, rfl⟩ := hfits
    rcases Tail.clauses_cons_iff.1 hclauses with ⟨rfl, _⟩ | ⟨rfl, _⟩ <;> cases h

theorem Shorthand.text_injective {a b : Shorthand} (h : a.text = b.text) : a = b := by
  rw [← String.toList_inj] at h
  cases a <;> cases b
  all_goals
    simp only [toList_text_context, toList_text_identifier, List.cons.injEq, String.toList_inj] at h
    simp_all

/-- Only shorthands fit where a shorthand stands. -/
theorem exists_shorthand_of_prefix {item : Shorthand} {prev : Option Shorthand} {y : String}
    {w : List String} {rest : List Char} (hrow : Tail.shorthands prev (y :: w))
    (hfits : y.toList <+: item.text.toList ++ rest) :
    ∃ item', y = item'.text ∧ item'.IsValid ∧ Tail.shorthands (some item') w := by
  rcases Tail.shorthands_cons_iff.1 hrow with ⟨item', rfl, hitem', _, hw⟩ | hclauses
  · exact ⟨item', rfl, hitem', hw⟩
  · obtain ⟨_, heq⟩ := hfits
    cases item with
    | context name =>
      rw [toList_text_context] at heq
      rcases Tail.clauses_cons_iff.1 hclauses with ⟨rfl, _⟩ | ⟨rfl, _⟩ <;> cases heq
    | identifier name =>
      rw [toList_text_identifier] at heq
      rcases Tail.clauses_cons_iff.1 hclauses with ⟨rfl, _⟩ | ⟨rfl, _⟩ <;> cases heq

/-- The longest shorthand of a kind decides: a mark, and the longest name that a span reads. -/
theorem decides_of_mark {make : String → Shorthand} {mark : Char}
    (htext : ∀ name, (make name).text.toList = mark :: name.toList)
    (hkind : ∀ (item : Shorthand) (rest : List Char), item.text.toList <+: mark :: rest →
      ∃ name, item = make name)
    {span : List Char → List Char × List Char} {word : List Char → Prop} (hspans : Spans span word)
    (hword : ∀ name, (make name).IsValid → word name.toList)
    (hends : ∀ name rest, ShorthandEnds (make name) rest → span rest = ([], rest))
    {name : String} (hvalid : (make name).IsValid) {prev : Option Shorthand}
    (hprev : ∀ a ∈ prev, a.MayPrecede (make name)) {rest : List Char}
    (hrest : ShorthandEnds (make name) rest) :
    Decides (Tail.shorthands prev) (Tail.shorthands (some (make name))) (make name).text rest := by
  refine hspans.decides [mark] (htext name) (hword name hvalid) (by simp [htext])
    (hends name rest hrest)
    (fun w hw => Tail.shorthands_cons_iff.2 (.inl ⟨_, rfl, hvalid, hprev, hw⟩)) ?_
  intro y w hrow hfits
  obtain ⟨item, rfl, hitem, hw⟩ := exists_shorthand_of_prefix hrow hfits
  rw [htext, List.cons_append] at hfits
  obtain ⟨name', rfl⟩ := hkind item _ hfits
  refine ⟨_, htext name', hword name' hitem, ?_, ?_⟩
  · intro heq
    rwa [← Shorthand.text_injective heq]
  · rintro token more rfl t
    exact hends name' _ (Tail.shorthandEnds_shorthands hw t)

/-- The longest shorthand decides. -/
theorem decides_shorthand {item : Shorthand} (hitem : item.IsValid) {prev : Option Shorthand}
    (hprev : ∀ a ∈ prev, a.MayPrecede item) {rest : List Char} (hrest : ShorthandEnds item rest) :
    Decides (Tail.shorthands prev) (Tail.shorthands (some item)) item.text rest := by
  cases item with
  | context name =>
    refine decides_of_mark toList_text_context ?_ (spans_takeWhile isName) (fun _ h => h.2)
      (fun _ _ h => span_of_stopsAt h) hitem hprev hrest
    intro item rest hfits
    cases item with
    | context name => exact ⟨name, rfl⟩
    | identifier name => simp [toList_text_identifier] at hfits
  | identifier name =>
    refine decides_of_mark toList_text_identifier ?_ spans_dottedSpan ?_ (fun _ _ h => h) hitem
      hprev hrest
    · intro item rest hfits
      cases item with
      | context name => simp [toList_text_context] at hfits
      | identifier name => exact ⟨name, rfl⟩
    · intro name h
      obtain ⟨words, _, hwords⟩ := isValid_identifier_iff.1 h
      exact ⟨words, hwords⟩

/-- The reader stops at a shorthand where the tokens of shorthands do. -/
theorem blames_of_readShorthand {read : Reading Shorthand} (hread : readShorthand s = some read)
    {prev : Option Shorthand} (hprev : ∀ a ∈ prev, ShorthandEnds a s)
    (h : BlamedBy read (fun item => (Blames (Tail.shorthands (some item)) item.text · blamed))
      blamed) : Blames (Tail.shorthands prev) last s blamed := by
  rcases h with rfl | ⟨item, rest, rfl, h⟩
  · obtain ⟨rfl, hne⟩ := eq_of_readShorthand_error hread
    exact (blames_shorthand hread).of_ne_nil hne
  · obtain ⟨rfl, hitem, hrest⟩ := readShorthand_ok hread
    exact h.cons (decides_shorthand hitem
      (fun a ha => mayPrecede_of_shorthandEnds hitem (hprev a ha)) hrest)

/-- Where no shorthand stands, clauses and a state are left. -/
theorem blames_shorthands_of_clauses (hnone : readShorthand s = none) {prev : Option Shorthand}
    (h : Blames Tail.clauses last s blamed) : Blames (Tail.shorthands prev) last s blamed := by
  refine h.mono (fun w => Tail.shorthands_of_clauses) ?_
  intro y w hrow hfits
  rcases Tail.shorthands_cons_iff.1 hrow with ⟨item, rfl, hitem, _⟩ | hclauses
  · obtain ⟨_, hfound⟩ := exists_readShorthand_of_prefix hitem hfits
    rw [hnone] at hfound
    cases hfound
  · exact hclauses

/-- The reader stops behind a tag where the tokens of a selector do. -/
theorem blames_of_readShorthands {last : String} {s : List Char} {prev : Option Shorthand}
    (hprev : ∀ a ∈ prev, ShorthandEnds a s)
    (h : BlamedBy (readShorthands s) (fun _ rest =>
      BlamedBy (readClauses rest) (fun _ => (readState · = .error blamed)) blamed) blamed) :
    Blames (Tail.shorthands prev) last s blamed := by
  rw [readShorthands_eq] at h
  split at h
  · rename_i hnone
    rw [blamedBy_ok] at h
    exact blames_shorthands_of_clauses hnone (blames_of_readClauses h)
  · rename_i hitem
    rw [blamedBy_error] at h
    exact blames_of_readShorthand hitem hprev (blamedBy_error.2 h)
  · rename_i item behind hitem
    have hlt := length_lt_of_readShorthand hitem
    apply blames_of_readShorthand hitem hprev
    rw [blamedBy_ok]
    apply blames_of_readShorthands
    · rintro a ⟨⟩
      exact (readShorthand_ok hitem).2.2
    · rwa [blamedBy_map] at h
termination_by s.length

/-! ### The whole selector -/

theorem blames_selector (h : s.head?.any isNameStart = false) :
    Blames Tail.selector last s (blamedAt last s) := by
  refine .here Tail.exists_selector ?_
  rintro y w hrow ⟨rest, rfl⟩
  obtain ⟨⟨c, cs, heq, hc, _⟩, _⟩ := Tail.selector_cons_iff.1 hrow
  rw [heq, List.cons_append, List.head?_cons, Option.any_some, hc] at h
  cases h

/-- The longest tag decides. -/
theorem decides_tag {tag : String} (htag : IsTag tag) {rest : List Char}
    (hrest : StopsAt isWord rest) :
    Decides Tail.selector (Tail.shorthands none) tag rest := by
  refine (spans_takeWhile isWord).decides [] rfl (isWord_of_mem_tag htag) htag.ne_nil
    (span_of_stopsAt hrest) (fun w hw => Tail.selector_cons_iff.2 ⟨htag, hw⟩) ?_
  intro y w hrow _
  obtain ⟨hy, hw⟩ := Tail.selector_cons_iff.1 hrow
  refine ⟨_, rfl, isWord_of_mem_tag hy, fun _ => hw, ?_⟩
  rintro token more rfl t
  obtain ⟨mark, cs, heq, hmark, _⟩ := Tail.exists_mark hw
  rw [heq, List.cons_append]
  exact span_of_stopsAt (StopsAt.isWord (stopsAt_cons.2 hmark))

/-- **The reader stops where the tokens of a selector do.** -/
theorem blames_of_readCompound (h : readCompound s = .error blamed) :
    Blames Tail.selector "" s blamed := by
  rcases blamedBy_of_bind h with htag | ⟨tag, rest, htag, hshorthands⟩
  · cases s with
    | nil =>
      cases htag
      exact blames_selector rfl
    | cons c cs =>
      rw [readTag] at htag
      split at htag
      · cases htag
      · rename_i hc
        cases htag
        exact blames_selector (by simpa using hc)
  · obtain ⟨rfl, htagvalid, hrest⟩ := readTag_ok htag
    apply Blames.cons (decides_tag htagvalid hrest)
    apply blames_of_readShorthands (by simp)
    refine (blamedBy_of_bind hshorthands).imp fun shorthands behind hclauses => ?_
    refine (blamedBy_of_bind hclauses).imp fun clauses behind hstate => ?_
    cases hread : readState behind with
    | error place =>
      simp only [hread] at hstate
      rw [Except.error.inj hstate]
    | ok state =>
      simp only [hread] at hstate
      cases hstate

end StyleCascade
